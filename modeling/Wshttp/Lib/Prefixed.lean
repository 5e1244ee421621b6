/-
# `Wshttp.Lib.Prefixed` — words with their lengths in front

A list of byte strings on a wire, each after one byte with its length.

    encode words      the bytes
    decode bytes      the words, if the lengths add up

**Proved here.**  `decode` reads back what `encode` writes, as long as every length fits its
byte (`decode_encode`).  A scan for a word, from record to record, finds it exactly if it is
one of the words (`scan_decoded`).
-/
import Mathlib.Data.List.Basic
import Mathlib.Tactic.Common

namespace Prefixed

abbrev Word := List UInt8

def encode (words : List Word) : List UInt8 :=
  words.flatMap fun w => UInt8.ofNat w.length :: w

def decode : List UInt8 → Option (List Word)
  | [] => some []
  | n :: rest =>
      if n.toNat ≤ rest.length then
        (decode (rest.drop n.toNat)).map (rest.take n.toNat :: ·)
      else none
termination_by bytes => bytes.length
decreasing_by
  rw [List.length_drop, List.length_cons]
  exact Nat.lt_succ_of_le (Nat.sub_le _ _)

/-- The first record whose bytes begin with `key`, without its length byte: what stands
at every record is compared with `key`, length and all. -/
def scan (key : Word) : List UInt8 → Option Word
  | [] => none
  | n :: rest =>
      if key.length ≤ (n :: rest).length ∧ (n :: rest).take key.length = key then
        some (rest.take n.toNat)
      else scan key (rest.drop n.toNat)
termination_by bytes => bytes.length
decreasing_by
  rw [List.length_drop, List.length_cons]
  exact Nat.lt_succ_of_le (Nat.sub_le _ _)

theorem decode_cons (n : UInt8) (rest : List UInt8) :
    decode (n :: rest) =
      if n.toNat ≤ rest.length then
        (decode (rest.drop n.toNat)).map (rest.take n.toNat :: ·)
      else none := by
  rw [decode]

theorem scan_cons (key : Word) (n : UInt8) (rest : List UInt8) :
    scan key (n :: rest) =
      if key.length ≤ (n :: rest).length ∧ (n :: rest).take key.length = key then
        some (rest.take n.toNat)
      else scan key (rest.drop n.toNat) := by
  rw [scan]

theorem encode_cons (w : Word) (words : List Word) :
    encode (w :: words) = UInt8.ofNat w.length :: w ++ encode words := by
  simp [encode]

/-! ## The round trip -/

theorem toNat_length {w : Word} (h : w.length < 256) : (UInt8.ofNat w.length).toNat = w.length :=
  UInt8.toNat_ofNat_of_lt' h

theorem decode_encode {words : List Word} (h : ∀ w ∈ words, w.length < 256) :
    decode (encode words) = some words := by
  induction words with
  | nil => simp [encode, decode]
  | cons w words ih =>
      have hlen := toNat_length (h w List.mem_cons_self)
      have hrest := ih fun v hv => h v (List.mem_cons_of_mem w hv)
      rw [encode_cons, List.cons_append, decode_cons, hlen, if_pos (by simp), List.drop_left,
        List.take_left, hrest]
      rfl

/-- A list that is decoded is empty, or a record with a decoded list behind it. -/
theorem decode_cases {bytes : List UInt8} {words : List Word} (h : decode bytes = some words) :
    (bytes = [] ∧ words = []) ∨
      ∃ w rest ws, w.length < 256 ∧ bytes = UInt8.ofNat w.length :: w ++ rest ∧
        decode rest = some ws ∧ words = w :: ws := by
  cases bytes with
  | nil =>
      rw [decode] at h
      exact .inl ⟨rfl, (Option.some.inj h).symm⟩
  | cons n rest =>
      rw [decode_cons] at h
      split at h
      case isFalse => cases h
      next hle =>
      obtain ⟨ws, hws, rfl⟩ := Option.map_eq_some_iff.mp h
      have hlen : (rest.take n.toNat).length = n.toNat := List.length_take_of_le hle
      refine .inr ⟨rest.take n.toNat, rest.drop n.toNat, ws, ?_, ?_, hws, rfl⟩
      · rw [hlen]
        exact n.toNat_lt
      · rw [hlen, UInt8.ofNat_toNat, List.cons_append, List.take_append_drop]

/-! ## Looking for a word -/

/-- At the beginning of a record, a word with its length stands there exactly if it is the
record. -/
theorem take_record_iff {v w : Word} {rest : List UInt8} (hv : v.length < 256)
    (hw : w.length < 256) :
    (UInt8.ofNat w.length :: w ++ rest).take (v.length + 1) = UInt8.ofNat v.length :: v ↔
      w = v := by
  rw [List.cons_append, List.take_succ_cons, List.cons.injEq]
  constructor
  · rintro ⟨hlen, htake⟩
    have hsame : w.length = v.length := by
      rw [← toNat_length hw, hlen, toNat_length hv]
    rw [← hsame, List.take_left] at htake
    exact htake
  · rintro rfl
    exact ⟨rfl, List.take_left⟩

theorem scan_decoded {v : Word} (hv : v.length < 256) {bytes : List UInt8} {words : List Word}
    (h : decode bytes = some words) :
    scan (UInt8.ofNat v.length :: v) bytes = if v ∈ words then some v else none := by
  induction words generalizing bytes with
  | nil =>
      rcases decode_cases h with ⟨rfl, -⟩ | ⟨_, _, _, _, _, _, hno⟩
      · rw [scan, if_neg List.not_mem_nil]
      · cases hno
  | cons x words ih =>
      rcases decode_cases h with ⟨-, hno⟩ | ⟨w, rest, ws, hlen, rfl, hrest, heq⟩
      · cases hno
      obtain ⟨rfl, rfl⟩ := List.cons.inj heq
      rw [List.cons_append, scan_cons, ← List.cons_append, List.length_cons]
      by_cases hwv : x = v
      · subst hwv
        have hfits : x.length + 1 ≤ (UInt8.ofNat x.length :: x ++ rest).length := by simp
        rw [if_pos ⟨hfits, (take_record_iff hv hlen).mpr rfl⟩, if_pos List.mem_cons_self,
          toNat_length hlen, List.take_left]
      · have hno : ¬ (v.length + 1 ≤ (UInt8.ofNat x.length :: x ++ rest).length ∧
            (UInt8.ofNat x.length :: x ++ rest).take (v.length + 1) = UInt8.ofNat v.length :: v) :=
          fun hboth => hwv ((take_record_iff hv hlen).mp hboth.2)
        rw [if_neg hno, toNat_length hlen, List.drop_left, ih hrest]
        refine if_congr ?_ rfl rfl
        rw [List.mem_cons, or_iff_right (Ne.symm hwv)]

end Prefixed
