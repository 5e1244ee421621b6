/-
# `Wshttp.Encoding` — byte order

`enc::byteswap_inplace` picks the swap by the size of its element type and does
nothing for a single byte; `host_to_big` and `big_to_host` swap on little-endian
hosts only.  `bigEndian` is `std::endian::native == std::endian::big`.
-/
import Wshttp.Types
import Mathlib.Algebra.Group.Nat.Defs

namespace Wshttp.enc

/-- `byteswap_inplace` at the element types the program uses. -/
class EndianSwappable (T : Type) where
  byteswap : T → T

instance : EndianSwappable UInt8 := ⟨id⟩

instance : EndianSwappable UInt16 := ⟨fun v => (v <<< 8) ||| (v >>> 8)⟩

instance : EndianSwappable UInt32 :=
  ⟨fun v => (v <<< 24) ||| ((v &&& (0xff00 : UInt32)) <<< 8) |||
    ((v >>> 8) &&& (0xff00 : UInt32)) ||| (v >>> 24)⟩

section
variable {T : Type} [EndianSwappable T]

def hostToBig (bigEndian : Bool) (v : T) : T :=
  if bigEndian then v else EndianSwappable.byteswap v

def bigToHost (bigEndian : Bool) (v : T) : T :=
  if bigEndian then v else EndianSwappable.byteswap v

end

/-- A swap is undone by a second one. -/
theorem bigToHost_hostToBig (bigEndian : Bool) (v : UInt16) :
    bigToHost bigEndian (hostToBig bigEndian v) = v := by
  cases bigEndian with
  | true => rfl
  | false =>
      show (((v <<< 8) ||| (v >>> 8)) <<< 8) ||| (((v <<< 8) ||| (v >>> 8)) >>> 8) = v
      apply UInt16.toBitVec_inj.mp
      ext i hi
      simp
      grind

theorem hostToBig_inj {bigEndian : Bool} {v w : UInt16} :
    hostToBig bigEndian v = hostToBig bigEndian w ↔ v = w := by
  refine ⟨fun h => ?_, congrArg _⟩
  rw [← bigToHost_hostToBig bigEndian v, h, bigToHost_hostToBig]

/-! ## The swap of 32 bits -/

theorem mask_bit (i : Nat) : (0xff00#32).getLsbD i = decide (8 ≤ i ∧ i < 16) := by
  by_cases hi : i < 32
  · have hall : ∀ i : Fin 32, (0xff00#32).getLsbD i.val = decide (8 ≤ i.val ∧ i.val < 16) := by
      decide
    exact hall ⟨i, hi⟩
  · rw [BitVec.getLsbD_of_ge _ _ (Nat.not_lt.mp hi)]
    exact (decide_eq_false (by omega)).symm

/-- Where the bit at `i` comes from: the bytes are in reverse order. -/
def swapIndex (i : Nat) : Nat := 8 * (3 - i / 8) + i % 8

theorem byteswap32_bit (v : UInt32) {i : Nat} (hi : i < 32) :
    (EndianSwappable.byteswap v).toBitVec.getLsbD i = v.toBitVec.getLsbD (swapIndex i) := by
  show ((v <<< 24) ||| ((v &&& (0xff00 : UInt32)) <<< 8) |||
    ((v >>> 8) &&& (0xff00 : UInt32)) ||| (v >>> 24)).toBitVec.getLsbD i = _
  simp [mask_bit, swapIndex]
  grind

theorem byteswap32_byteswap (v : UInt32) :
    EndianSwappable.byteswap (EndianSwappable.byteswap v) = v := by
  apply UInt32.toBitVec_inj.mp
  refine BitVec.eq_of_getLsbD_eq fun i hi => ?_
  have hlt : swapIndex i < 32 := by
    unfold swapIndex
    omega
  have hback : swapIndex (swapIndex i) = i := by
    unfold swapIndex
    omega
  rw [byteswap32_bit _ hi, byteswap32_bit _ hlt, hback]

theorem bigToHost32_hostToBig (bigEndian : Bool) (v : UInt32) :
    bigToHost bigEndian (hostToBig bigEndian v) = v := by
  cases bigEndian with
  | true => rfl
  | false => exact byteswap32_byteswap v

theorem hostToBig32_bigToHost (bigEndian : Bool) (v : UInt32) :
    hostToBig bigEndian (bigToHost bigEndian v) = v := by
  cases bigEndian with
  | true => rfl
  | false => exact byteswap32_byteswap v

/-! ## Two bytes in memory -/

/-- A 16-bit element as the host reads it from two consecutive bytes. -/
def load16 (bigEndian : Bool) (b₀ b₁ : UInt8) : UInt16 :=
  if bigEndian then (b₀.toUInt16 <<< 8) ||| b₁.toUInt16 else (b₁.toUInt16 <<< 8) ||| b₀.toUInt16

/-- The two bytes of a 16-bit element in the host's memory. -/
def store16 (bigEndian : Bool) (v : UInt16) : UInt8 × UInt8 :=
  if bigEndian then ((v >>> 8).toUInt8, v.toUInt8) else (v.toUInt8, (v >>> 8).toUInt8)

/-! ## Network order -/

/-- The two bytes of a 16-bit value in network order. -/
def netBytes (v : UInt16) : UInt8 × UInt8 := ((v >>> 8).toUInt8, v.toUInt8)

/-- The value of two bytes in network order. -/
def ofNetBytes (b₀ b₁ : UInt8) : UInt16 := (b₀.toUInt16 <<< 8) ||| b₁.toUInt16

theorem netBytes_ofNetBytes (b₀ b₁ : UInt8) : netBytes (ofNetBytes b₀ b₁) = (b₀, b₁) := by
  refine Prod.ext ?_ ?_
  · apply UInt8.toBitVec_inj.mp
    ext i hi
    simp [netBytes, ofNetBytes]
    grind
  · apply UInt8.toBitVec_inj.mp
    ext i hi
    simp [netBytes, ofNetBytes]

theorem netBytes_inj {v w : UInt16} : netBytes v = netBytes w ↔ v = w := by
  refine ⟨fun h => ?_, fun h => congrArg netBytes h⟩
  obtain ⟨hhigh, hlow⟩ := Prod.mk.inj h
  have hdiv := congrArg UInt8.toNat hhigh
  have hmod := congrArg UInt8.toNat hlow
  simp only [UInt16.toNat_toUInt8, UInt16.toNat_shiftRight] at hdiv hmod
  have hv := v.toNat_lt
  have hw := w.toNat_lt
  apply UInt16.toNat_inj.mp
  simp only [UInt16.reduceToNat, Nat.reduceMod, Nat.shiftRight_eq_div_pow] at hdiv
  omega

theorem ofNetBytes_netBytes (v : UInt16) : ofNetBytes (netBytes v).1 (netBytes v).2 = v := by
  rw [← netBytes_inj, netBytes_ofNetBytes]

theorem store16_inj {bigEndian : Bool} {v w : UInt16} :
    store16 bigEndian v = store16 bigEndian w ↔ v = w := by
  refine ⟨fun h => ?_, congrArg _⟩
  cases bigEndian with
  | true => exact netBytes_inj.mp h
  | false => exact netBytes_inj.mp (congrArg Prod.swap h)

theorem netBytes_byteswap (v : UInt16) :
    netBytes (EndianSwappable.byteswap v) = (netBytes v).swap := by
  show netBytes ((v <<< 8) ||| (v >>> 8)) = _
  refine Prod.ext ?_ ?_
  · apply UInt8.toBitVec_inj.mp
    ext i hi
    simp [netBytes]
    grind
  · apply UInt8.toBitVec_inj.mp
    ext i hi
    simp [netBytes]

/-- What is converted to network order and stored has its high byte first. -/
theorem store16_hostToBig (bigEndian : Bool) (v : UInt16) :
    store16 bigEndian (hostToBig bigEndian v) = netBytes v := by
  cases bigEndian with
  | true => rfl
  | false =>
      show (netBytes (EndianSwappable.byteswap v)).swap = _
      rw [netBytes_byteswap, Prod.swap_swap]

theorem bigToHost_load16 (bigEndian : Bool) (b₀ b₁ : UInt8) :
    bigToHost bigEndian (load16 bigEndian b₀ b₁) = ofNetBytes b₀ b₁ := by
  cases bigEndian with
  | true => rfl
  | false =>
      rw [← netBytes_inj, netBytes_ofNetBytes]
      show netBytes (EndianSwappable.byteswap (ofNetBytes b₁ b₀)) = _
      rw [netBytes_byteswap, netBytes_ofNetBytes]
      rfl

/-! ## The bytes of a number -/

/-- The `n` low bytes, least significant first. -/
def lowBytes : Nat → Nat → Bytes
  | 0, _ => []
  | n + 1, v => UInt8.ofNat v :: lowBytes n (v / 256)

/-- A 32-bit value in the host's memory. -/
def store32 (bigEndian : Bool) (v : UInt32) : Bytes :=
  if bigEndian then (lowBytes 4 v.toNat).reverse else lowBytes 4 v.toNat

/-- A 64-bit value in the host's memory. -/
def store64 (bigEndian : Bool) (v : UInt64) : Bytes :=
  if bigEndian then (lowBytes 8 v.toNat).reverse else lowBytes 8 v.toNat

@[simp] theorem length_lowBytes (n v : Nat) : (lowBytes n v).length = n := by
  induction n generalizing v with
  | zero => rfl
  | succ n ih => rw [lowBytes, List.length_cons, ih]

theorem take_lowBytes (m n v : Nat) : (lowBytes (m + n) v).take m = lowBytes m v := by
  induction m generalizing v with
  | zero => rfl
  | succ m ih =>
      rw [Nat.succ_add, lowBytes, List.take_succ_cons, ih]
      rfl

theorem lowBytes_inj {n v w : Nat} :
    lowBytes n v = lowBytes n w ↔ v % 256 ^ n = w % 256 ^ n := by
  induction n generalizing v w with
  | zero => simp only [lowBytes, Nat.pow_zero, Nat.mod_one]
  | succ n ih =>
      have hbyte : UInt8.ofNat v = UInt8.ofNat w ↔ v % 256 = w % 256 := by
        rw [UInt8.ofNat_eq_iff_mod_eq_toNat, UInt8.toNat_ofNat']
      rw [lowBytes, lowBytes, List.cons.injEq, ih, hbyte, Nat.pow_succ', Nat.mod_mul, Nat.mod_mul]
      constructor
      · rintro ⟨hlow, hhigh⟩
        rw [hlow, hhigh]
      · intro h
        have hv := Nat.mod_lt v (Nat.succ_pos 255)
        have hw := Nat.mod_lt w (Nat.succ_pos 255)
        constructor
        · omega
        · omega

theorem lowBytes_inj_of_lt {n v w : Nat} (hv : v < 256 ^ n) (hw : w < 256 ^ n) :
    lowBytes n v = lowBytes n w ↔ v = w := by
  rw [lowBytes_inj, Nat.mod_eq_of_lt hv, Nat.mod_eq_of_lt hw]

section
variable (bigEndian : Bool)

/-- The host's order tells the same values apart as any other. -/
theorem ordered_inj {xs ys : Bytes} :
    (if bigEndian then xs.reverse else xs) = (if bigEndian then ys.reverse else ys) ↔ xs = ys := by
  cases bigEndian with
  | true => exact List.reverse_inj
  | false => exact Iff.rfl

theorem length_ordered (xs : Bytes) :
    (if bigEndian then xs.reverse else xs).length = xs.length := by
  cases bigEndian with
  | true => exact List.length_reverse
  | false => rfl

theorem store32_inj {v w : UInt32} : store32 bigEndian v = store32 bigEndian w ↔ v = w := by
  have hlow : lowBytes 4 v.toNat = lowBytes 4 w.toNat ↔ v.toNat = w.toNat :=
    lowBytes_inj_of_lt v.toNat_lt w.toNat_lt
  exact (ordered_inj bigEndian).trans (hlow.trans UInt32.toNat_inj)

theorem store64_inj {v w : UInt64} : store64 bigEndian v = store64 bigEndian w ↔ v = w := by
  have hlow : lowBytes 8 v.toNat = lowBytes 8 w.toNat ↔ v.toNat = w.toNat :=
    lowBytes_inj_of_lt v.toNat_lt w.toNat_lt
  exact (ordered_inj bigEndian).trans (hlow.trans UInt64.toNat_inj)

theorem length_store32 (v : UInt32) : (store32 bigEndian v).length = 4 :=
  (length_ordered bigEndian _).trans (length_lowBytes 4 _)

theorem length_store64 (v : UInt64) : (store64 bigEndian v).length = 8 :=
  (length_ordered bigEndian _).trans (length_lowBytes 8 _)

end

end Wshttp.enc
