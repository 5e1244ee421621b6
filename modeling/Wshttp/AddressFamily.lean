/-
# `Wshttp.AddressFamily` — the flag of an `ip_address` and its variant

`is_ipv4` answers from the flag `_is_v4`, and everything that has to choose between
the two alternatives asks it first.  The flag is right if the constructor gave the
variant its value in the initialiser list.  The `sockaddr` constructor assigns it in
its body instead, so there the flag says what a default variant is: an `ipv4`.

| operation                          | event          |
| :--------------------------------- | :------------- |
| `ip_address(uint16_t)`             | `ofPort`       |
| `ip_address(T, uint16_t)`          | `ofIp`         |
| `ip_address(struct sockaddr*)`     | `ofSockaddr`   |
| the copy constructors              | `copy`         |
| the assignments                    | `assign`       |
| `set_port`                         | `setPort`      |

**Proved here.**  In a run of these, all flags are right, no wrong alternative is
accessed and equal values behave alike, exactly as long as no value is made from
a `sockaddr` of the family `AF_INET6` (`families_agree_iff`).
-/
import Wshttp.Lib.Run
import Wshttp.Address

namespace Wshttp

open Machine

/-! ## The operations -/

/-- `inet_ntop`, on the memory of an address in network order. -/
structure InetNtop where
  inet : UInt32 → Bytes
  inet6 : Vector UInt16 8 → Bytes

def Ipv4.isAnyaddr (a : Ipv4) : Bool := a == ⟨0⟩

def Ipv4.toBytes (ntop : InetNtop) (bigEndian : Bool) (a : Ipv4) : Bytes :=
  cString (ntop.inet (enc.hostToBig bigEndian a.addr))

def Ipv6.isAnyaddr (a : Ipv6) : Bool := a == ⟨.replicate 8 0⟩

def Ipv6.toBytes (ntop : InetNtop) (bigEndian : Bool) (a : Ipv6) : Bytes :=
  cString (ntop.inet6 (a.addr.map (enc.hostToBig bigEndian)))

namespace IpAddress

/-- `ip_address(T, uint16_t)`: the flag is initialised after the variant. -/
def ofIp (ip : IpV) (p : UInt16) : IpAddress := ⟨ip, p, ip.index == 0⟩

/-- `_copy_internals`. -/
def copyInternals (a _self : IpAddress) : IpAddress := ⟨a.ip, a.port, a.isV4⟩

def setPort (p : UInt16) (a : IpAddress) : IpAddress := { a with port := p }

/-- `is_anyaddr`. -/
def isAnyaddr (a : IpAddress) : Except Exn Bool :=
  (if a.isV4 then a.ipv4.map Ipv4.isAnyaddr else a.ipv6.map Ipv6.isAnyaddr).map (· && a.port == 0)

/-- `to_string`. -/
def toBytes (ntop : InetNtop) (bigEndian : Bool) (a : IpAddress) : Except Exn Bytes :=
  (if a.isV4 then a.ipv4.map (Ipv4.toBytes ntop bigEndian)
    else a.ipv6.map (Ipv6.toBytes ntop bigEndian)).map
      (· ++ chars ":" ++ chars (toString a.port.toNat))

/-- The conversion that `is_ipv4` chooses: to `in_addr`, or to `in6_addr`. -/
def convert (bigEndian : Bool) (a : IpAddress) : Except Exn (UInt32 ⊕ Vector UInt8 16) :=
  if a.isV4 then a.ipv4.map (.inl ∘ Ipv4.toIn4 bigEndian)
  else a.ipv6.map (.inr ∘ Ipv6.toIn6 bigEndian)

end IpAddress

/-! ## Runs -/

/-- All the values made so far; `copy` and `ofPort` and the others make one more. -/
abbrev Addresses := List IpAddress

inductive AddressEvent where
  | ofPort (p : UInt16)
  | ofIp (ip : IpV) (p : UInt16)
  | ofSockaddr (sa : Sockaddr)
  | copy (i : Nat)
  | assign (i j : Nat)
  | setPort (i : Nat) (p : UInt16)

/-- One operation.  A constructor that throws makes no value. -/
def Addresses.step (bigEndian : Bool) (as : Addresses) : AddressEvent → Option Addresses
  | .ofPort p => some (as ++ [.ofPort p])
  | .ofIp ip p => some (as ++ [.ofIp ip p])
  | .ofSockaddr sa => (IpAddress.ofSockaddr bigEndian sa).toOption.map fun a => as ++ [a]
  | .copy i => as[i]?.map fun a => as ++ [a.copyInternals (.ofPort 0)]
  | .assign i j =>
      as[i]?.bind fun self => as[j]?.map fun a => as.set i (a.copyInternals self)
  | .setPort i p => as[i]?.map fun a => as.set i (a.setPort p)

def AddressEvent.isSockaddr6 : AddressEvent → Bool
  | .ofSockaddr (.inet6 _ _) => true
  | _ => false

/-! ## What is to hold -/

/-- The flag says which alternative is there. -/
def IpAddress.FlagAgrees (a : IpAddress) : Prop := a.isV4 = true ↔ ∃ x, a.ip = .v4 x

/-- No operation on the value accesses the wrong alternative. -/
structure IpAddress.Accessible (ntop : InetNtop) (bigEndian : Bool) (a : IpAddress) : Prop where
  isAnyaddr : a.isAnyaddr ≠ .error badVariantAccess
  toBytes : a.toBytes ntop bigEndian ≠ .error badVariantAccess
  convert : a.convert bigEndian ≠ .error badVariantAccess

structure FamiliesAgree (ntop : InetNtop) (bigEndian : Bool) (as : Addresses) : Prop where
  flag : ∀ a ∈ as, a.FlagAgrees
  accessible : ∀ a ∈ as, a.Accessible ntop bigEndian
  equals : ∀ a ∈ as, ∀ b ∈ as, a.key = b.key →
    a.isV4 = b.isV4 ∧ a.isAnyaddr = b.isAnyaddr ∧
      a.toBytes ntop bigEndian = b.toBytes ntop bigEndian

/-! ## One value -/

section
variable {ntop : InetNtop} {bigEndian : Bool} {a b : IpAddress}

theorem flagAgrees_ofIp (ip : IpV) (p : UInt16) : (IpAddress.ofIp ip p).FlagAgrees := by
  cases ip with
  | v4 x => exact iff_of_true rfl ⟨x, rfl⟩
  | v6 x => exact iff_of_false Bool.false_ne_true (fun ⟨_, h⟩ => (nomatch h))

theorem IpAddress.FlagAgrees.isV4_eq (h : a.FlagAgrees) : a.isV4 = (a.ip.index == 0) := by
  cases hip : a.ip with
  | v4 x => exact h.mpr ⟨x, hip⟩
  | v6 x =>
      refine Bool.eq_false_iff.mpr fun htrue => ?_
      obtain ⟨y, hy⟩ := h.mp htrue
      rw [hip] at hy
      cases hy

theorem IpAddress.FlagAgrees.accessible (h : a.FlagAgrees) : a.Accessible ntop bigEndian := by
  have hflag := h.isV4_eq
  obtain ⟨ip, port, isV4⟩ := a
  dsimp only at hflag
  subst hflag
  cases ip with
  | v4 x => exact ⟨fun h => (nomatch h), fun h => (nomatch h), fun h => (nomatch h)⟩
  | v6 x => exact ⟨fun h => (nomatch h), fun h => (nomatch h), fun h => (nomatch h)⟩

/-- Values with right flags are equal if `operator==` says so. -/
theorem IpAddress.FlagAgrees.eq_of_key (ha : a.FlagAgrees) (hb : b.FlagAgrees)
    (h : a.key = b.key) : a = b := by
  obtain ⟨hip, hport⟩ := Prod.mk.inj h
  have hflag : a.isV4 = b.isV4 := by rw [ha.isV4_eq, hb.isV4_eq, hip]
  obtain ⟨_, _, _⟩ := a
  obtain ⟨_, _, _⟩ := b
  dsimp only at hip hport hflag
  rw [hip, hport, hflag]

end

theorem familiesAgree_of_flags {ntop : InetNtop} {bigEndian : Bool} {as : Addresses}
    (h : ∀ a ∈ as, a.FlagAgrees) : FamiliesAgree ntop bigEndian as where
  flag := h
  accessible := fun a ha => (h a ha).accessible
  equals := by
    intro a ha b hb hkey
    obtain rfl := (h a ha).eq_of_key (h b hb) hkey
    exact ⟨rfl, rfl, rfl⟩

/-- The flag of a value from a `sockaddr` is right unless the family is `AF_INET6`. -/
theorem flagAgrees_ofSockaddr {bigEndian : Bool} {sa : Sockaddr} {a : IpAddress}
    (h : IpAddress.ofSockaddr bigEndian sa = .ok a) :
    a.FlagAgrees ↔ (AddressEvent.ofSockaddr sa).isSockaddr6 = false := by
  cases sa with
  | inet addr p =>
      obtain rfl := Except.ok.inj h
      exact iff_of_true (iff_of_true rfl ⟨_, rfl⟩) rfl
  | inet6 addr p =>
      obtain rfl := Except.ok.inj h
      refine iff_of_false (fun hagrees => ?_) Bool.noConfusion
      obtain ⟨x, hx⟩ := hagrees.mp rfl
      cases hx
  | other family => cases h

/-! ## One step -/

section
variable {ntop : InetNtop} {bigEndian : Bool} {as as' : Addresses} {e : AddressEvent}

theorem step_flags (has : ∀ a ∈ as, a.FlagAgrees) (h : as.step bigEndian e = some as') :
    (∀ a ∈ as', a.FlagAgrees) ↔ e.isSockaddr6 = false := by
  have hpush (a : IpAddress) : (∀ b ∈ as ++ [a], b.FlagAgrees) ↔ a.FlagAgrees := by
    rw [List.forall_mem_append, List.forall_mem_singleton]
    exact and_iff_right has
  have hset (i : Nat) {a : IpAddress} (ha : a.FlagAgrees) : ∀ b ∈ as.set i a, b.FlagAgrees := by
    intro b hb
    rcases List.mem_or_eq_of_mem_set hb with hold | rfl
    · exact has b hold
    · exact ha
  cases e with
  | ofPort p =>
      obtain rfl := Option.some.inj h
      exact iff_of_true ((hpush _).mpr (flagAgrees_ofIp (.v4 {}) p)) rfl
  | ofIp ip p =>
      obtain rfl := Option.some.inj h
      exact iff_of_true ((hpush _).mpr (flagAgrees_ofIp ip p)) rfl
  | ofSockaddr sa =>
      obtain ⟨a, ha, rfl⟩ := Option.map_eq_some_iff.mp h
      rw [hpush]
      cases hsa : IpAddress.ofSockaddr bigEndian sa with
      | error e =>
          rw [hsa] at ha
          cases ha
      | ok b =>
          rw [hsa] at ha
          obtain rfl := Option.some.inj ha
          exact flagAgrees_ofSockaddr hsa
  | copy i =>
      obtain ⟨a, ha, rfl⟩ := Option.map_eq_some_iff.mp h
      exact iff_of_true ((hpush _).mpr (has a (List.mem_of_getElem? ha))) rfl
  | assign i j =>
      obtain ⟨self, -, hrest⟩ := Option.bind_eq_some_iff.mp h
      obtain ⟨a, ha, rfl⟩ := Option.map_eq_some_iff.mp hrest
      exact iff_of_true (hset i (has a (List.mem_of_getElem? ha))) rfl
  | setPort i p =>
      obtain ⟨a, ha, rfl⟩ := Option.map_eq_some_iff.mp h
      exact iff_of_true (hset i (has a (List.mem_of_getElem? ha))) rfl

theorem step_familiesAgree (has : FamiliesAgree ntop bigEndian as)
    (h : as.step bigEndian e = some as') :
    FamiliesAgree ntop bigEndian as' ↔ e.isSockaddr6 = false := by
  rw [← step_flags has.flag h]
  exact ⟨fun hagree => hagree.flag, familiesAgree_of_flags⟩

end

/-- **The families agree, exactly as long as no value is read from an `AF_INET6`
address.**  In every state of every run of the operations, from no values. -/
theorem families_agree_iff (ntop : InetNtop) (bigEndian : Bool) (evs : List AddressEvent) :
    Along (Addresses.step bigEndian) (fun _ _ as => FamiliesAgree ntop bigEndian as) [] evs ↔
      Along (Addresses.step bigEndian) (fun _ e _ => e.isSockaddr6 = false) [] evs := by
  have hnone : FamiliesAgree ntop bigEndian [] :=
    familiesAgree_of_flags fun _ ha => absurd ha List.not_mem_nil
  exact along_iff (I := FamiliesAgree ntop bigEndian)
    (Q := fun _ _ as => FamiliesAgree ntop bigEndian as)
    (R := fun _ (e : AddressEvent) _ => e.isSockaddr6 = false)
    (fun _ _ _ has h => step_familiesAgree has h) (fun _ _ _ _ hagree _ => hagree) hnone evs

/-- `[::1]:443`, in network order. -/
def loopback6 : Sockaddr := .inet6 ⟨#[0, 0, 0, 0, 0, 0, 0, 0, 0, 0, 0, 0, 0, 0, 0, 1], rfl⟩ 0xbb01

/-- The value made from it says it is an `ipv4`, and printing it throws. -/
theorem sockaddr6_misread :
    ¬ ∀ ntop, Along (Addresses.step false) (fun _ _ as => FamiliesAgree ntop false as) []
      [.ofSockaddr loopback6] := by
  intro hall
  obtain ⟨hagree, -⟩ := hall ⟨fun _ => [], fun _ => chars "::1"⟩ _ rfl
  have haccess := hagree.accessible _ List.mem_cons_self
  exact haccess.toBytes rfl

end Wshttp
