/-
# `Wshttp.Address.Text` — what the texts of addresses and paths tell apart

    127.0.0.1:443    ::1:443    [local=127.0.0.1:443, remote=127.0.0.1:50000]

An address is printed as the text of its `ipv4` or `ipv6`, a colon, and the port; an `ipv6`
has colons too, and no brackets around it.  A path is printed with its two addresses.  These
texts are in the log lines of every session, where they are to say which session it is.

**Proved here.**  `to_string` of a path throws exactly if one of its two addresses has the
wrong flag, and otherwise two paths have the same text exactly if their addresses are equal
(`path_texts_identify`): the last colon is always that of the port.
-/
import Wshttp.AddressFamily
import Wshttp.Lib.Fields
import Wshttp.Lib.Text

namespace Wshttp

open Fields

/-! ## Decimal numbers as bytes -/

/-- `{}` for a number. -/
theorem chars_toString (n : Nat) :
    chars (toString n) = (Nat.toDigits 10 n).map fun c => UInt8.ofNat c.toNat := by
  rw [chars, show toString n = Nat.repr n from rfl, Nat.toList_repr]

theorem isDigit_toNat {c : Char} (h : c.isDigit = true) : 48 ≤ c.toNat ∧ c.toNat ≤ 57 := by
  rw [Char.isDigit, Bool.and_eq_true, decide_eq_true_iff, decide_eq_true_iff] at h
  exact ⟨UInt32.le_iff_toNat_le.mp h.1, UInt32.le_iff_toNat_le.mp h.2⟩

theorem toNat_digit {c : Char} (h : c.isDigit = true) :
    (UInt8.ofNat c.toNat).toNat = c.toNat := by
  have hle := isDigit_toNat h
  exact UInt8.toNat_ofNat_of_lt' (by
    show c.toNat < 256
    omega)

theorem isDigit_toDigits {c : Char} {n : Nat} (h : c ∈ Nat.toDigits 10 n) : c.isDigit = true :=
  Nat.isDigit_of_mem_toDigits (by decide) (by decide) h

/-- The number is read back from its bytes. -/
theorem number_decimal (n : Nat) :
    number ((chars (toString n)).map fun b => Char.ofNat b.toNat) = n := by
  have hback : (chars (toString n)).map (fun b => Char.ofNat b.toNat) = Nat.toDigits 10 n := by
    rw [chars_toString, List.map_map]
    refine (List.map_congr_left fun c hc => ?_).trans (List.map_id _)
    rw [Function.comp_apply, toNat_digit (isDigit_toDigits hc), Char.ofNat_toNat]
    rfl
  rw [hback, number, Nat.ofDigitChars_ten_toDigits]

theorem decimal_inj {n m : Nat} (h : chars (toString n) = chars (toString m)) : n = m := by
  rw [← number_decimal n, h, number_decimal]

/-- A byte that is no digit does not occur in a number. -/
theorem notMem_decimal {b : UInt8} (hb : b.toNat < 48 ∨ 57 < b.toNat) (n : Nat) :
    b ∉ chars (toString n) := by
  rw [chars_toString]
  intro hmem
  obtain ⟨c, hc, rfl⟩ := List.mem_map.mp hmem
  have hdigit := isDigit_toDigits hc
  have hle := isDigit_toNat hdigit
  rw [toNat_digit hdigit] at hb
  omega

/-! ## Addresses -/

/-- What `inet_ntop` is documented to print: texts that tell the addresses of a family apart,
without NULs and commas, and with colons in the one family only. -/
structure InetNtop.Standard (ntop : InetNtop) : Prop where
  inet_inj : ∀ a b, ntop.inet a = ntop.inet b → a = b
  inet6_inj : ∀ a b, ntop.inet6 a = ntop.inet6 b → a = b
  inet_text : ∀ a, 0 ∉ ntop.inet a ∧ 0x2c ∉ ntop.inet a ∧ 0x3a ∉ ntop.inet a
  inet6_text : ∀ a, 0 ∉ ntop.inet6 a ∧ 0x2c ∉ ntop.inet6 a ∧ 0x3a ∈ ntop.inet6 a

/-- The text of the address in an `ip_address`. -/
def IpV.text (ntop : InetNtop) (bigEndian : Bool) : IpV → Bytes
  | .v4 a => a.toBytes ntop bigEndian
  | .v6 a => a.toBytes ntop bigEndian

def IpAddress.text (ntop : InetNtop) (bigEndian : Bool) (a : IpAddress) : Bytes :=
  a.ip.text ntop bigEndian ++ 0x3a :: chars (toString a.port.toNat)

section
variable {ntop : InetNtop} {bigEndian : Bool}

/-- `to_string` returns if the flag is right, and only then. -/
theorem address_toBytes (a : IpAddress) :
    (a.FlagAgrees ∧ a.toBytes ntop bigEndian = .ok (a.text ntop bigEndian)) ∨
      (¬ a.FlagAgrees ∧ a.toBytes ntop bigEndian = .error badVariantAccess) := by
  have hcolon : chars ":" = [0x3a] := rfl
  obtain ⟨ip, port, isV4⟩ := a
  cases ip with
  | v4 x =>
      cases isV4 with
      | true =>
          refine .inl ⟨iff_of_true rfl ⟨x, rfl⟩, ?_⟩
          simp [IpAddress.toBytes, IpAddress.ipv4, Except.map, IpAddress.text, IpV.text, hcolon]
      | false =>
          refine .inr ⟨fun h => ?_, rfl⟩
          exact Bool.false_ne_true (h.mpr ⟨x, rfl⟩)
  | v6 x =>
      cases isV4 with
      | true =>
          refine .inr ⟨fun h => ?_, rfl⟩
          obtain ⟨y, hy⟩ := h.mp rfl
          cases hy
      | false =>
          refine .inl ⟨iff_of_false Bool.false_ne_true fun h => ?_, ?_⟩
          · obtain ⟨y, hy⟩ := h
            cases hy
          · simp [IpAddress.toBytes, IpAddress.ipv6, Except.map, IpAddress.text, IpV.text, hcolon]

theorem Ipv4.toBytes_standard (hntop : ntop.Standard) (a : Ipv4) :
    a.toBytes ntop bigEndian = ntop.inet (enc.hostToBig bigEndian a.addr) :=
  cString_of_noNul (hntop.inet_text _).1

theorem Ipv6.toBytes_standard (hntop : ntop.Standard) (a : Ipv6) :
    a.toBytes ntop bigEndian = ntop.inet6 (a.addr.map (enc.hostToBig bigEndian)) :=
  cString_of_noNul (hntop.inet6_text _).1

theorem ipv_comma (hntop : ntop.Standard) (ip : IpV) : 0x2c ∉ ip.text ntop bigEndian := by
  cases ip with
  | v4 a =>
      rw [IpV.text, Ipv4.toBytes_standard hntop]
      exact (hntop.inet_text _).2.1
  | v6 a =>
      rw [IpV.text, Ipv6.toBytes_standard hntop]
      exact (hntop.inet6_text _).2.1

theorem ipv_text_inj (hntop : ntop.Standard) {ip ip' : IpV}
    (h : ip.text ntop bigEndian = ip'.text ntop bigEndian) : ip = ip' := by
  have hcolon (a : Ipv4) (b : Ipv6) :
      (IpV.v4 a).text ntop bigEndian ≠ (IpV.v6 b).text ntop bigEndian := by
    rw [IpV.text, IpV.text, Ipv4.toBytes_standard hntop, Ipv6.toBytes_standard hntop]
    intro heq
    exact (hntop.inet_text _).2.2 (heq ▸ (hntop.inet6_text _).2.2)
  cases ip with
  | v4 a =>
      cases ip' with
      | v4 b =>
          rw [IpV.text, IpV.text, Ipv4.toBytes_standard hntop, Ipv4.toBytes_standard hntop] at h
          have haddr : a.addr = b.addr := by
            rw [← enc.bigToHost32_hostToBig bigEndian a.addr, hntop.inet_inj _ _ h,
              enc.bigToHost32_hostToBig]
          cases a
          cases b
          exact congrArg (IpV.v4 ∘ Ipv4.mk) haddr
      | v6 b => exact absurd h (hcolon a b)
  | v6 a =>
      cases ip' with
      | v4 b => exact absurd h.symm (hcolon b a)
      | v6 b =>
          rw [IpV.text, IpV.text, Ipv6.toBytes_standard hntop, Ipv6.toBytes_standard hntop] at h
          have haddr : a.addr = b.addr := by
            refine Vector.ext fun i hi => ?_
            have hgroup := congrArg (fun v => v[i]) (hntop.inet6_inj _ _ h)
            simp only [Vector.getElem_map] at hgroup
            exact enc.hostToBig_inj.mp hgroup
          cases a
          cases b
          exact congrArg (IpV.v6 ∘ Ipv6.mk) haddr

theorem text_comma (hntop : ntop.Standard) (a : IpAddress) : 0x2c ∉ a.text ntop bigEndian := by
  rw [IpAddress.text, List.mem_append, List.mem_cons, not_or, not_or]
  exact ⟨ipv_comma hntop a.ip, by decide, notMem_decimal (.inl (by decide)) _⟩

/-- The port is behind the last colon. -/
theorem text_inj (hntop : ntop.Standard) {a b : IpAddress}
    (h : a.text ntop bigEndian = b.text ntop bigEndian) : a.key = b.key := by
  have hcolon (n : Nat) : 0x3a ∉ chars (toString n) := notMem_decimal (.inr (by decide)) n
  obtain ⟨hip, hport⟩ := append_last_inj (hcolon _) (hcolon _) h
  have heq : a.port = b.port := UInt16.toNat_inj.mp (decimal_inj hport)
  rw [IpAddress.key, IpAddress.key, ipv_text_inj hntop hip, heq]

theorem text_congr {a b : IpAddress} (h : a.key = b.key) :
    a.text ntop bigEndian = b.text ntop bigEndian := by
  obtain ⟨hip, hport⟩ := Prod.mk.inj h
  rw [IpAddress.text, IpAddress.text, hip, hport]

end

/-! ## Paths -/

/-- `path::to_string`. -/
def Path.toBytes (ntop : InetNtop) (bigEndian : Bool) (p : Path) : Except Exn Bytes :=
  match p.localEnd.toBytes ntop bigEndian with
  | .error e => .error e
  | .ok own =>
      match p.remote.toBytes ntop bigEndian with
      | .error e => .error e
      | .ok other => .ok (chars "[local=" ++ own ++ chars ", remote=" ++ other ++ chars "]")

def Path.text (ntop : InetNtop) (bigEndian : Bool) (p : Path) : Bytes :=
  chars "[local=" ++ p.localEnd.text ntop bigEndian ++ chars ", remote=" ++
    p.remote.text ntop bigEndian ++ chars "]"

section
variable {ntop : InetNtop} {bigEndian : Bool}

theorem Path.toBytes_eq (p : Path) :
    (p.localEnd.FlagAgrees ∧ p.remote.FlagAgrees) ∧
        p.toBytes ntop bigEndian = .ok (p.text ntop bigEndian) ∨
      ¬ (p.localEnd.FlagAgrees ∧ p.remote.FlagAgrees) ∧
        p.toBytes ntop bigEndian = .error badVariantAccess := by
  rcases @address_toBytes ntop bigEndian p.localEnd with ⟨hown, heq⟩ | ⟨hown, heq⟩
  · rcases @address_toBytes ntop bigEndian p.remote with ⟨hother, heq'⟩ | ⟨hother, heq'⟩
    · refine .inl ⟨⟨hown, hother⟩, ?_⟩
      rw [Path.toBytes, heq, heq']
      rfl
    · refine .inr ⟨fun h => hother h.2, ?_⟩
      rw [Path.toBytes, heq, heq']
  · refine .inr ⟨fun h => hown h.1, ?_⟩
    rw [Path.toBytes, heq]

/-- The comma of the path is the first one. -/
theorem Path.text_inj_iff (hntop : ntop.Standard) (p q : Path) :
    p.text ntop bigEndian = q.text ntop bigEndian ↔
      p.localEnd.key = q.localEnd.key ∧ p.remote.key = q.remote.key := by
  constructor
  · intro h
    have hsep : chars ", remote=" = 0x2c :: chars " remote=" := rfl
    rw [Path.text, Path.text, hsep] at h
    simp only [List.append_assoc, List.cons_append, List.append_cancel_left_eq] at h
    obtain ⟨hown, hrest⟩ := append_first_inj (text_comma hntop _) (text_comma hntop _) h
    rw [List.append_cancel_left_eq, List.append_cancel_right_eq] at hrest
    exact ⟨text_inj hntop hown, text_inj hntop hrest⟩
  · rintro ⟨hown, hother⟩
    rw [Path.text, Path.text, text_congr hown, text_congr hother]

/-- **The text of a path identifies it.**  For all paths: `to_string` returns if both flags
are right, and what it returns is the same for two paths exactly if they are equal. -/
theorem path_texts_identify (hntop : ntop.Standard) (bigEndian : Bool) (p q : Path) :
    ((∃ text, p.toBytes ntop bigEndian = .ok text) ↔
        p.localEnd.FlagAgrees ∧ p.remote.FlagAgrees) ∧
      ∀ text text', p.toBytes ntop bigEndian = .ok text → q.toBytes ntop bigEndian = .ok text' →
        (text = text' ↔ p.localEnd.key = q.localEnd.key ∧ p.remote.key = q.remote.key) := by
  constructor
  · rcases @Path.toBytes_eq ntop bigEndian p with ⟨hflags, heq⟩ | ⟨hflags, heq⟩
    · exact iff_of_true ⟨_, heq⟩ hflags
    · refine iff_of_false ?_ hflags
      rintro ⟨text, htext⟩
      cases heq.symm.trans htext
  · intro text text' hp hq
    have hown {p : Path} {text : Bytes} (h : p.toBytes ntop bigEndian = .ok text) :
        text = p.text ntop bigEndian := by
      rcases @Path.toBytes_eq ntop bigEndian p with ⟨-, heq⟩ | ⟨-, heq⟩
      · exact Except.ok.inj (h.symm.trans heq)
      · cases h.symm.trans heq
    rw [hown hp, hown hq]
    exact Path.text_inj_iff hntop p q

end

/-! ## A function that prints as `inet_ntop` does

For the family `AF_INET`, on a little-endian host. -/

/-- The number in hex. -/
def hexBytes (n : Nat) : Bytes := (Text.padHex 0 n).map fun c => UInt8.ofNat c.toNat

theorem digitChar_of_mem {c : Char} {n : Nat} (h : c ∈ Text.padHex 0 n) :
    ∃ d < 16, c = d.digitChar := by
  rcases List.mem_append.mp h with hzero | hdigits
  · exact ⟨0, by decide, List.eq_of_mem_replicate hzero⟩
  · exact Text.mem_toDigits hdigits

theorem hexBytes_inj {n m : Nat} (h : hexBytes n = hexBytes m) : n = m := by
  have hall : ∀ d : Fin 16, Char.ofNat (UInt8.ofNat d.val.digitChar.toNat).toNat
      = d.val.digitChar := by decide
  have hback (k : Nat) : (hexBytes k).map (fun b => Char.ofNat b.toNat) = Text.padHex 0 k := by
    rw [hexBytes, List.map_map]
    refine (List.map_congr_left fun c hc => ?_).trans (List.map_id _)
    obtain ⟨d, hd, rfl⟩ := digitChar_of_mem hc
    exact hall ⟨d, hd⟩
  have hsome : some n = some m := by
    rw [← Text.parseHex_padHex 0 n, ← hback, h, hback, Text.parseHex_padHex]
  exact Option.some.inj hsome

/-- A byte that is no hex digit does not occur in a number. -/
theorem notMem_hexBytes {b : UInt8} (n : Nat)
    (hb : ∀ d : Fin 16, UInt8.ofNat d.val.digitChar.toNat ≠ b) : b ∉ hexBytes n := by
  intro hmem
  obtain ⟨c, hc, rfl⟩ := List.mem_map.mp hmem
  obtain ⟨d, hd, rfl⟩ := digitChar_of_mem hc
  exact hb ⟨d, hd⟩ rfl

/-- `127.0.0.1`, the first octet first in memory. -/
def dottedQuad (a : UInt32) : Bytes :=
  [0x2e].intercalate ((enc.store32 false a).map fun b => chars (toString b.toNat))

/-- All eight groups, none left out. -/
def hexGroups (a : Vector UInt16 8) : Bytes :=
  [0x3a].intercalate (a.toList.map fun g => hexBytes (enc.hostToBig false g).toNat)

theorem dottedQuad_inj {a b : UInt32} (h : dottedQuad a = dottedQuad b) : a = b := by
  have hword (v : UInt32) :
      ∀ l ∈ (enc.store32 false v).map fun b => chars (toString b.toNat), (0x2e : UInt8) ∉ l := by
    intro l hl
    obtain ⟨o, -, rfl⟩ := List.mem_map.mp hl
    exact notMem_decimal (.inl (by decide)) _
  have hne (v : UInt32) : (enc.store32 false v).map (fun b => chars (toString b.toNat)) ≠ [] :=
    List.ne_nil_of_length_pos (by rw [List.length_map, enc.length_store32]; decide)
  have hoctet : ∀ x y : UInt8, chars (toString x.toNat) = chars (toString y.toNat) → x = y := by
    intro x y hxy
    exact UInt8.toNat_inj.mp (decimal_inj hxy)
  have hlist := intercalate_inj (hword a) (hword b) (hne a) (hne b) h
  exact (enc.store32_inj false).mp ((List.map_inj_right hoctet).mp hlist)

theorem hexGroups_inj {a b : Vector UInt16 8} (h : hexGroups a = hexGroups b) : a = b := by
  have hword (v : Vector UInt16 8) :
      ∀ l ∈ v.toList.map fun g => hexBytes (enc.hostToBig false g).toNat, (0x3a : UInt8) ∉ l := by
    intro l hl
    obtain ⟨g, -, rfl⟩ := List.mem_map.mp hl
    exact notMem_hexBytes _ (by decide)
  have hne (v : Vector UInt16 8) :
      v.toList.map (fun g => hexBytes (enc.hostToBig false g).toNat) ≠ [] :=
    List.ne_nil_of_length_pos (by rw [List.length_map, Vector.length_toList]; decide)
  have hgroup : ∀ x y : UInt16, hexBytes (enc.hostToBig false x).toNat =
      hexBytes (enc.hostToBig false y).toNat → x = y := by
    intro x y hxy
    exact enc.hostToBig_inj.mp (UInt16.toNat_inj.mp (hexBytes_inj hxy))
  have hlist := intercalate_inj (hword a) (hword b) (hne a) (hne b) h
  exact Vector.toList_inj.mp ((List.map_inj_right hgroup).mp hlist)

theorem notMem_dottedQuad {c : UInt8} (hc : c.toNat < 48 ∨ 57 < c.toNat) (hdot : c ≠ 0x2e)
    (a : UInt32) : c ∉ dottedQuad a := by
  intro hmem
  rcases mem_intercalate hmem with heq | ⟨l, hl, hcl⟩
  · exact hdot heq
  · obtain ⟨o, -, rfl⟩ := List.mem_map.mp hl
    exact notMem_decimal hc _ hcl

theorem notMem_hexGroups {c : UInt8} (hc : ∀ d : Fin 16, UInt8.ofNat d.val.digitChar.toNat ≠ c)
    (hcolon : c ≠ 0x3a) (a : Vector UInt16 8) : c ∉ hexGroups a := by
  intro hmem
  rcases mem_intercalate hmem with heq | ⟨l, hl, hcl⟩
  · exact hcolon heq
  · obtain ⟨g, -, rfl⟩ := List.mem_map.mp hl
    exact notMem_hexBytes _ hc hcl

theorem colon_mem_hexGroups (a : Vector UInt16 8) : 0x3a ∈ hexGroups a := by
  obtain ⟨g, g', rest, hlist⟩ : ∃ g g' rest, a.toList = g :: g' :: rest := by
    have hlength := a.length_toList
    match hlist : a.toList with
    | g :: g' :: rest => exact ⟨g, g', rest, rfl⟩
    | [g] =>
        rw [hlist] at hlength
        cases hlength
    | [] =>
        rw [hlist] at hlength
        cases hlength
  rw [hexGroups, hlist, List.map_cons, List.map_cons, List.intercalate_cons_cons]
  simp

theorem standard_plain : InetNtop.Standard ⟨dottedQuad, hexGroups⟩ where
  inet_inj := fun _ _ => dottedQuad_inj
  inet6_inj := fun _ _ => hexGroups_inj
  inet_text := fun a => ⟨notMem_dottedQuad (.inl (by decide)) (by decide) a,
    notMem_dottedQuad (.inl (by decide)) (by decide) a,
    notMem_dottedQuad (.inr (by decide)) (by decide) a⟩
  inet6_text := fun a => ⟨notMem_hexGroups (by decide) (by decide) a,
    notMem_hexGroups (by decide) (by decide) a, colon_mem_hexGroups a⟩

/-- The two ends of a connection over the loopback. -/
def loopbackPath : Path := ⟨.ofIp (.v4 ⟨0x7f000001⟩) 443, .ofIp (.v4 ⟨0x7f000001⟩) 50000⟩

example : loopbackPath.toBytes ⟨dottedQuad, hexGroups⟩ false =
    .ok (chars "[local=127.0.0.1:443, remote=127.0.0.1:50000]") := by
  decide

/-- The ends the other way round are another text. -/
theorem path_texts_identify_loopback :
    ((∃ text, loopbackPath.toBytes ⟨dottedQuad, hexGroups⟩ false = .ok text) ↔
        loopbackPath.localEnd.FlagAgrees ∧ loopbackPath.remote.FlagAgrees) ∧
      ∀ text text', loopbackPath.toBytes ⟨dottedQuad, hexGroups⟩ false = .ok text →
        (Path.mk loopbackPath.remote loopbackPath.localEnd).toBytes ⟨dottedQuad, hexGroups⟩ false
            = .ok text' →
        (text = text' ↔ loopbackPath.localEnd.key = loopbackPath.remote.key ∧
          loopbackPath.remote.key = loopbackPath.localEnd.key) :=
  path_texts_identify standard_plain false _ _

end Wshttp
