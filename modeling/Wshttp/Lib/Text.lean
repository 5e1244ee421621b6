/-
# `Wshttp.Lib.Text` — printed numbers, lines and columns, and how to read them back

A text is a list of characters.

    padHex width n      `n` in lower-case hex, with leading zeros up to `width` digits
    parseHex            reads such a number, with any number of leading zeros

**Proved here.**  `parseHex` reads back what `padHex` prints; lines that are printed each
after a separator are what `List.splitOn` gives; of a row of items the `j`-th begins where
the ones before it end; and the blocks of a list make up the list.
-/
import Mathlib.Algebra.Group.Nat.Defs
import Mathlib.Data.List.TakeWhile
import Mathlib.Tactic.Common

namespace Text

/-! ## Hex numbers -/

def hexValue (c : Char) : Option Nat :=
  if '0' ≤ c ∧ c ≤ '9' then some (c.toNat - '0'.toNat)
  else if 'a' ≤ c ∧ c ≤ 'f' then some (c.toNat - 'a'.toNat + 10)
  else none

def pushDigit (n : Nat) (c : Char) : Option Nat := (hexValue c).map fun d => 16 * n + d

def parseHex (cs : List Char) : Option Nat := cs.foldlM pushDigit 0

def padHex (width n : Nat) : List Char := (Nat.toDigits 16 n).leftpad width '0'

theorem hexValue_digitChar {d : Nat} (h : d < 16) : hexValue d.digitChar = some d := by
  have hall : ∀ d : Fin 16, hexValue d.val.digitChar = some d.val := by decide
  exact hall ⟨d, h⟩

theorem foldlM_toDigits (n : Nat) : (Nat.toDigits 16 n).foldlM pushDigit 0 = some n := by
  induction n using Nat.strongRecOn with
  | ind n ih =>
      rw [Nat.toDigits_eq_if (by decide)]
      split
      · next hlt => simp [pushDigit, hexValue_digitChar hlt]
      next hge =>
      have hquot : n / 16 < n := by omega
      have hrem : n % 16 < 16 := Nat.mod_lt n (by decide)
      rw [List.foldlM_append, ih _ hquot]
      simp only [Option.bind_eq_bind, Option.bind_some, List.foldlM_cons, List.foldlM_nil,
        pushDigit, hexValue_digitChar hrem, Option.map_some, Option.pure_def]
      rw [Nat.div_add_mod]

theorem foldlM_zeros (k : Nat) : (List.replicate k '0').foldlM pushDigit 0 = some 0 := by
  induction k with
  | zero => rfl
  | succ k ih => exact ih

theorem parseHex_padHex (width n : Nat) : parseHex (padHex width n) = some n := by
  rw [parseHex, padHex, List.leftpad, List.foldlM_append, foldlM_zeros]
  exact foldlM_toDigits n

theorem mem_toDigits {c : Char} {n : Nat} (h : c ∈ Nat.toDigits 16 n) :
    ∃ d < 16, c = d.digitChar := by
  induction n using Nat.strongRecOn with
  | ind n ih =>
      rw [Nat.toDigits_eq_if (by decide)] at h
      split at h
      · next hlt => exact ⟨n, hlt, List.mem_singleton.mp h⟩
      next hge =>
      rcases List.mem_append.mp h with hinit | hlast
      · exact ih (n / 16) (by omega) hinit
      · exact ⟨n % 16, Nat.mod_lt n (by decide), List.mem_singleton.mp hlast⟩

/-- What is not a hex digit does not occur in a number. -/
theorem ne_of_mem_padHex {c s : Char} {width n : Nat} (h : c ∈ padHex width n)
    (hs : hexValue s = none) : c ≠ s := by
  rintro rfl
  have hdigit : ∃ d < 16, c = d.digitChar := by
    rcases List.mem_append.mp h with hzero | hdigits
    · exact ⟨0, by decide, List.eq_of_mem_replicate hzero⟩
    · exact mem_toDigits hdigits
  obtain ⟨d, hd, rfl⟩ := hdigit
  rw [hexValue_digitChar hd] at hs
  cases hs

theorem length_padHex {width n : Nat} (hpos : 0 < width) (h : n < 16 ^ width) :
    (padHex width n).length = width := by
  rw [padHex, List.length_leftpad]
  exact Nat.max_eq_left ((Nat.length_toDigits_le_iff (by decide) hpos).mpr h)

/-! ## Lines -/

section
variable {α : Type*} [DecidableEq α] {sep : α}

/-- Lines that are printed after a separator each are found again. -/
theorem splitOn_lines {first : List α} {lines : List (List α)} (hfirst : sep ∉ first)
    (hlines : ∀ line ∈ lines, sep ∉ line) :
    (first ++ lines.flatMap (sep :: ·)).splitOn sep = first :: lines := by
  induction lines generalizing first with
  | nil => rw [List.flatMap_nil, List.append_nil, List.splitOn_eq_singleton hfirst]
  | cons line lines ih =>
      rw [List.flatMap_cons, List.cons_append, List.splitOn_append_cons_self_of_not_mem hfirst]
      exact congrArg _ (ih (hlines line List.mem_cons_self)
        fun l hl => hlines l (List.mem_cons_of_mem line hl))

/-- The word before the first separator, and what follows it. -/
theorem takeWhile_word {word rest : List α} (h : ∀ c ∈ word, c ≠ sep) :
    (word ++ sep :: rest).takeWhile (· ≠ sep) = word := by
  rw [List.takeWhile_append_of_pos fun c hc => decide_eq_true (h c hc)]
  simp

theorem dropWhile_word {word rest : List α} (h : ∀ c ∈ word, c ≠ sep) :
    (word ++ sep :: rest).dropWhile (· ≠ sep) = sep :: rest := by
  rw [List.dropWhile_append_of_pos fun c hc => decide_eq_true (h c hc)]
  simp

end

/-! ## Columns and blocks -/

section
variable {α : Type*}

/-- In a row of `n` items the `j`-th stands behind the ones before it. -/
theorem drop_row (f : Nat → List α) {n j : Nat} (h : j < n) (rest : List α) :
    ∃ more, ((List.range n).flatMap f ++ rest).drop ((List.range j).flatMap f).length
      = f j ++ more := by
  obtain ⟨r, rfl⟩ : ∃ r, n = j + (r + 1) := ⟨n - j - 1, by omega⟩
  rw [List.range_add, List.flatMap_append, List.append_assoc, List.drop_left,
    List.range_succ_eq_map, List.map_cons, List.flatMap_cons, List.append_assoc]
  exact ⟨_, rfl⟩

/-- What reads the elements of a list by their index reads the list. -/
theorem filterMap_getElem? {l : List α} {f : Nat → Option α} {n : Nat}
    (h : ∀ j < n, f j = l[j]?) : (List.range n).filterMap f = l.take n := by
  induction n with
  | zero => rfl
  | succ n ih =>
      rw [List.range_succ, List.filterMap_append, ih fun j hj => h j (Nat.lt_succ_of_lt hj),
        List.take_add_one, ← h n (Nat.lt_succ_self n)]
      cases hn : f n with
      | none => simp [hn]
      | some a => simp [hn]

/-- `m` blocks of `w` elements, from `i` on. -/
theorem flatMap_blocks (l : List α) (w m i : Nat) :
    (List.range' i m w).flatMap (fun i => (l.drop i).take w) = (l.drop i).take (w * m) := by
  induction m generalizing i with
  | zero => simp
  | succ m ih =>
      rw [List.range'_succ, List.flatMap_cons, ih, ← List.drop_drop, Nat.mul_succ, Nat.add_comm,
        List.take_add]

end

end Text
