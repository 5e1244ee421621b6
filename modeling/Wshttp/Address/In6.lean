/-
# `Wshttp.Address.In6` — `ipv6` to bytes, and back

Three conversions go through the sixteen bytes of the groups' memory:

| source                       | element swapped     | host order to network order? |
| :--------------------------- | :------------------ | :--------------------------- |
| `ipv6(const in6_addr*)`      | `addr[i]`, 16 bits  | back                         |
| `to_string`                  | `temp[i]`, 16 bits  | yes                          |
| `to_in6`                     | `s6_addr[i]`, 8 bits | no: a byte is not swapped   |

On a little-endian host `to_in6` so hands out the groups' own memory.

`inet_ntop` and `inet_pton` are parameters, the first with sixteen bytes, the second
with a string up to its NUL.

**Proved here.**  On a big-endian host all conversions fit.  On a little-endian one the
string's do, and `to_in6` fits exactly for the addresses whose groups have two equal
bytes (`in6_conversions_iff`).
-/
import Wshttp.Address

namespace Wshttp

/-- `in6_addr::s6_addr`. -/
abbrev In6 := Vector UInt8 16

namespace In6

theorem first_lt (i : Fin 8) : 2 * i.val < 16 := by omega

theorem second_lt (i : Fin 8) : 2 * i.val + 1 < 16 := by omega

theorem group_lt (i : Fin 16) : i.val / 2 < 8 := by omega

/-- Where the first byte of a group is. -/
def first (i : Fin 8) : Fin 16 := ⟨2 * i.val, first_lt i⟩

/-- Where the second byte of a group is. -/
def second (i : Fin 8) : Fin 16 := ⟨2 * i.val + 1, second_lt i⟩

/-- Which group a byte is of. -/
def group (i : Fin 16) : Fin 8 := ⟨i.val / 2, group_lt i⟩

theorem first_even (i : Fin 8) : (first i).val % 2 = 0 := Nat.mul_mod_right 2 i.val

theorem second_odd (i : Fin 8) : ¬ (second i).val % 2 = 0 := by
  show ¬ (2 * i.val + 1) % 2 = 0
  omega

theorem group_first (i : Fin 8) : group (first i) = i := by
  refine Fin.ext ?_
  show 2 * i.val / 2 = i.val
  omega

theorem group_second (i : Fin 8) : group (second i) = i := by
  refine Fin.ext ?_
  show (2 * i.val + 1) / 2 = i.val
  omega

theorem first_group {i : Fin 16} (h : i.val % 2 = 0) : first (group i) = i := by
  refine Fin.ext ?_
  show 2 * (i.val / 2) = i.val
  omega

theorem second_group {i : Fin 16} (h : ¬ i.val % 2 = 0) : second (group i) = i := by
  refine Fin.ext ?_
  show 2 * (i.val / 2) + 1 = i.val
  omega

end In6

namespace Ipv6

open In6

/-- The bytes of eight groups, each given as two. -/
def bytesOf (bytes : Fin 8 → UInt8 × UInt8) : In6 :=
  .ofFn fun i => if i.val % 2 = 0 then (bytes (group i)).1 else (bytes (group i)).2

/-- `ipv6(const struct in6_addr*)`. -/
def ofIn6 (bigEndian : Bool) (a : In6) : Ipv6 :=
  ⟨.ofFn fun i =>
    enc.bigToHost bigEndian (enc.load16 bigEndian (a.get (first i)) (a.get (second i)))⟩

/-- `detail::parse_addr(AF_INET6, &addr, str)`: the bytes it leaves in `addr`. -/
def parseAddr (inetPton : Bytes → Option In6) (s : Bytes) : Except Exn In6 :=
  match inetPton (cString s) with
  | some a => .ok a
  | none => .error (invalidArgument "Unable to parse IP address!")

/-- `ipv6(const std::string&)`. -/
def ofString (bigEndian : Bool) (inetPton : Bytes → Option In6) (s : Bytes) : Except Exn Ipv6 :=
  (parseAddr inetPton s).map (ofIn6 bigEndian)

/-- The bytes of `temp` when `to_string` hands it to `inet_ntop`. -/
def toStringBytes (bigEndian : Bool) (x : Ipv6) : In6 :=
  bytesOf fun i => enc.store16 bigEndian (enc.hostToBig bigEndian x.addr[i])

def toString (bigEndian : Bool) (inetNtop : In6 → Bytes) (x : Ipv6) : Bytes :=
  inetNtop (x.toStringBytes bigEndian)

/-- Each group has the same byte twice. -/
def Palindromic (x : Ipv6) : Prop :=
  ∀ i : Fin 8, (enc.netBytes x.addr[i]).1 = (enc.netBytes x.addr[i]).2

/-! ## Network order -/

section
variable {bytes bytes' : Fin 8 → UInt8 × UInt8}

theorem get_bytesOf (bytes : Fin 8 → UInt8 × UInt8) (i : Fin 16) :
    (bytesOf bytes).get i = if i.val % 2 = 0 then (bytes (group i)).1 else (bytes (group i)).2 :=
  Vector.getElem_ofFn i.isLt

theorem bytesOf_first (bytes : Fin 8 → UInt8 × UInt8) (i : Fin 8) :
    (bytesOf bytes).get (first i) = (bytes i).1 := by
  rw [get_bytesOf, if_pos (first_even i), group_first]

theorem bytesOf_second (bytes : Fin 8 → UInt8 × UInt8) (i : Fin 8) :
    (bytesOf bytes).get (second i) = (bytes i).2 := by
  rw [get_bytesOf, if_neg (second_odd i), group_second]

theorem bytesOf_inj : bytesOf bytes = bytesOf bytes' ↔ ∀ i, bytes i = bytes' i := by
  constructor
  · intro h i
    refine Prod.ext ?_ ?_
    · rw [← bytesOf_first, ← bytesOf_first, h]
    · rw [← bytesOf_second, ← bytesOf_second, h]
  · intro h
    rw [funext h]

/-- Sixteen bytes are those of their eight pairs. -/
theorem bytesOf_pairs (a : In6) : bytesOf (fun i => (a.get (first i), a.get (second i))) = a := by
  refine Vector.ext fun i hi => ?_
  refine (get_bytesOf _ ⟨i, hi⟩).trans ?_
  split
  · next heven =>
    rw [first_group heven]
    rfl
  · next hodd =>
    rw [second_group hodd]
    rfl

/-- What `to_string` hands over is in network order, on either host. -/
theorem toStringBytes_eq (bigEndian : Bool) (x : Ipv6) :
    x.toStringBytes bigEndian = bytesOf fun i => enc.netBytes x.addr[i] :=
  congrArg bytesOf (funext fun _ => enc.store16_hostToBig bigEndian _)

/-- The constructor reads network order, on either host. -/
theorem addr_ofIn6 (bigEndian : Bool) (a : In6) (i : Fin 8) :
    (ofIn6 bigEndian a).addr[i] = enc.ofNetBytes (a.get (first i)) (a.get (second i)) :=
  (Vector.getElem_ofFn i.isLt).trans (enc.bigToHost_load16 bigEndian _ _)

theorem ofIn6_toStringBytes (bigEndian : Bool) (x : Ipv6) :
    ofIn6 bigEndian (x.toStringBytes bigEndian) = x := by
  suffices h : (ofIn6 bigEndian (x.toStringBytes bigEndian)).addr = x.addr from congrArg mk h
  refine Vector.ext fun i hi => ?_
  have hgroup := addr_ofIn6 bigEndian (x.toStringBytes bigEndian) ⟨i, hi⟩
  rw [toStringBytes_eq, bytesOf_first, bytesOf_second, enc.ofNetBytes_netBytes] at hgroup
  rw [toStringBytes_eq]
  exact hgroup

theorem toStringBytes_ofIn6 (bigEndian : Bool) (a : In6) :
    (ofIn6 bigEndian a).toStringBytes bigEndian = a := by
  refine Eq.trans ?_ (bytesOf_pairs a)
  rw [toStringBytes_eq]
  refine congrArg bytesOf (funext fun i => ?_)
  rw [addr_ofIn6, enc.netBytes_ofNetBytes]

/-! ## `to_in6` -/

/-- It hands out the groups as they are stored. -/
theorem toIn6_eq (bigEndian : Bool) (x : Ipv6) :
    x.toIn6 bigEndian = bytesOf fun i => enc.store16 bigEndian x.addr[i] := by
  have hbyte (b : UInt8) : enc.bigToHost bigEndian b = b := ite_self b
  refine Vector.ext fun i hi => ?_
  refine Eq.trans ?_ (get_bytesOf _ ⟨i, hi⟩).symm
  refine (Vector.getElem_ofFn hi).trans ?_
  dsimp only
  rw [hbyte, ite_self]
  split
  · rfl
  · rfl

/-- On a little-endian host each group comes low byte first. -/
theorem toIn6_eq_toStringBytes_iff (bigEndian : Bool) (x : Ipv6) :
    x.toIn6 bigEndian = x.toStringBytes bigEndian ↔ bigEndian = true ∨ x.Palindromic := by
  rw [toIn6_eq, toStringBytes_eq, bytesOf_inj]
  cases bigEndian with
  | true => exact iff_of_true (fun _ => rfl) (.inl rfl)
  | false =>
      rw [or_iff_right Bool.false_ne_true]
      refine forall_congr' fun i => ?_
      constructor
      · exact fun h => (congrArg Prod.snd h)
      · exact fun h => Prod.ext h.symm h

theorem ofIn6_toIn6_iff (bigEndian : Bool) (x : Ipv6) :
    ofIn6 bigEndian (x.toIn6 bigEndian) = x ↔ bigEndian = true ∨ x.Palindromic := by
  rw [← toIn6_eq_toStringBytes_iff]
  constructor
  · intro h
    rw [← toStringBytes_ofIn6 bigEndian (x.toIn6 bigEndian), h]
  · intro h
    rw [h, ofIn6_toStringBytes]

/-- **`to_in6` fits the other conversions exactly on a big-endian host, and otherwise for
groups of two equal bytes; the string always fits.**  For every address. -/
theorem in6_conversions_iff (bigEndian : Bool) (inetNtop : In6 → Bytes)
    (inetPton : Bytes → Option In6) (x : Ipv6) (a : In6)
    (hinverse : inetPton (cString (inetNtop (x.toStringBytes bigEndian)))
      = some (x.toStringBytes bigEndian)) :
    (ofIn6 bigEndian (x.toIn6 bigEndian) = x ↔ bigEndian = true ∨ x.Palindromic) ∧
    ((ofIn6 bigEndian a).toIn6 bigEndian = a ↔
      bigEndian = true ∨ ∀ i, a.get (first i) = a.get (second i)) ∧
    (x.toIn6 bigEndian = x.toStringBytes bigEndian ↔ bigEndian = true ∨ x.Palindromic) ∧
    ofString bigEndian inetPton (x.toString bigEndian inetNtop) = .ok x := by
  refine ⟨ofIn6_toIn6_iff bigEndian x, ?_, toIn6_eq_toStringBytes_iff bigEndian x, ?_⟩
  · have hpairs : (ofIn6 bigEndian a).Palindromic ↔
        ∀ i, a.get (first i) = a.get (second i) := by
      refine forall_congr' fun i => ?_
      rw [addr_ofIn6, enc.netBytes_ofNetBytes]
    have hnet := toIn6_eq_toStringBytes_iff bigEndian (ofIn6 bigEndian a)
    rwa [toStringBytes_ofIn6, hpairs] at hnet
  · rw [ofString, parseAddr, toString, hinverse]
    exact congrArg Except.ok (ofIn6_toStringBytes bigEndian x)

end

/-- The branch of the `sockaddr` constructor. -/
theorem ofSockaddr_inet6 (bigEndian : Bool) (a : In6) (p : UInt16) :
    (IpAddress.ofSockaddr bigEndian (.inet6 a p)).map IpAddress.ip
      = .ok (.v6 (ofIn6 bigEndian a)) := rfl

/-- `ipv6(0x2001, 0xdb8)`. -/
def documentation : Ipv6 := ⟨#v[0x2001, 0xdb8, 0, 0, 0, 0, 0, 0]⟩

theorem in6_conversions_iff_documentation :
    let inetNtop := fun a : In6 =>
      if a = documentation.toStringBytes false then chars "2001:db8::" else []
    let inetPton := fun s =>
      if s = chars "2001:db8::" then some (documentation.toStringBytes false) else none
    inetPton (cString (inetNtop (documentation.toStringBytes false)))
        = some (documentation.toStringBytes false) ∧
      (ofIn6 false (documentation.toIn6 false) = documentation ↔
        false = true ∨ documentation.Palindromic) ∧
      ((ofIn6 false (documentation.toStringBytes false)).toIn6 false
          = documentation.toStringBytes false ↔
        false = true ∨ ∀ i, (documentation.toStringBytes false).get (first i)
          = (documentation.toStringBytes false).get (second i)) ∧
      (documentation.toIn6 false = documentation.toStringBytes false ↔
        false = true ∨ documentation.Palindromic) ∧
      ofString false inetPton (documentation.toString false inetNtop) = .ok documentation := by
  refine ⟨by decide, ?_⟩
  exact in6_conversions_iff false _ _ documentation (documentation.toStringBytes false) (by decide)

/-- `2001:db8::` is handed out as `120:b80d::`. -/
theorem in6_bytes_swapped :
    ofIn6 false (documentation.toIn6 false) ≠ documentation ∧
      documentation.toIn6 false = #v[0x01, 0x20, 0xb8, 0x0d, 0, 0, 0, 0, 0, 0, 0, 0, 0, 0, 0, 0] ∧
      documentation.toStringBytes false
        = #v[0x20, 0x01, 0x0d, 0xb8, 0, 0, 0, 0, 0, 0, 0, 0, 0, 0, 0, 0] := by
  decide

end Ipv6

end Wshttp
