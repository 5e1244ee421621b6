/-
# `Wshttp.Lib.Fields` — decimal fields, and the separators between them

    padDecimal w n    `n` in decimal, with leading zeros up to `w` digits
    number cs         the value of a string of digits
    cut sep cs        what stands before and behind the first `sep`

**Proved here.**  `number` reads back what `padDecimal` prints; a field is cut off at a
separator that it does not contain; and a string with one more field behind its last
separator determines the field and what stands before it.
-/
import Mathlib.Data.List.TakeWhile
import Mathlib.Tactic.Common

namespace Fields

/-! ## Decimal numbers -/

def padDecimal (width n : Nat) : List Char := (Nat.toDigits 10 n).leftpad width '0'

def number (cs : List Char) : Nat := Nat.ofDigitChars 10 cs 0

theorem number_padDecimal (width n : Nat) : number (padDecimal width n) = n := by
  rw [number, padDecimal, List.leftpad, Nat.ofDigitChars_append, Nat.ofDigitChars_replicate_zero,
    Nat.mul_zero]
  exact Nat.ofDigitChars_ten_toDigits

/-- A separator that is no digit does not occur in a number. -/
theorem notMem_padDecimal {sep : Char} (hsep : sep.isDigit = false) (width n : Nat) :
    sep ∉ padDecimal width n := by
  intro hmem
  have hdigit : sep.isDigit = true := by
    rcases List.mem_append.mp hmem with hzero | hdigits
    · rw [List.eq_of_mem_replicate hzero]
      rfl
    · exact Nat.isDigit_of_mem_toDigits (by decide) (by decide) hdigits
  rw [hsep] at hdigit
  cases hdigit

/-! ## Separators -/

section
variable {α : Type*} [DecidableEq α] {sep : α}

def cut (sep : α) (cs : List α) : Option (List α × List α) :=
  if sep ∈ cs then some (cs.takeWhile (· ≠ sep), (cs.dropWhile (· ≠ sep)).tail) else none

theorem cut_word {word : List α} (h : sep ∉ word) (rest : List α) :
    cut sep (word ++ sep :: rest) = some (word, rest) := by
  have hne : ∀ c ∈ word, decide (c ≠ sep) = true := by
    intro c hc
    refine decide_eq_true ?_
    rintro rfl
    exact h hc
  rw [cut, if_pos (by simp), List.takeWhile_append_of_pos hne, List.dropWhile_append_of_pos hne]
  simp

theorem cut_absent {cs : List α} (h : sep ∉ cs) : cut sep cs = none := if_neg h

/-- The first field, and what stands behind its separator. -/
theorem append_first_inj {xs ys p q : List α} (hx : sep ∉ xs) (hy : sep ∉ ys)
    (h : xs ++ sep :: p = ys ++ sep :: q) : xs = ys ∧ p = q := by
  have hcut := cut_word hx p
  rw [h, cut_word hy q] at hcut
  obtain ⟨hword, hrest⟩ := Prod.mk.inj (Option.some.inj hcut)
  exact ⟨hword.symm, hrest.symm⟩

/-- The last field, and what stands before its separator. -/
theorem append_last_inj {xs ys p q : List α} (hp : sep ∉ p) (hq : sep ∉ q)
    (h : xs ++ sep :: p = ys ++ sep :: q) : xs = ys ∧ p = q := by
  have hrev : p.reverse ++ sep :: xs.reverse = q.reverse ++ sep :: ys.reverse := by
    simpa using congrArg List.reverse h
  obtain ⟨hpq, hxy⟩ := append_first_inj (by simpa using hp) (by simpa using hq) hrev
  exact ⟨List.reverse_inj.mp hxy, List.reverse_inj.mp hpq⟩

/-- Words joined by a separator that is in none of them are told apart. -/
theorem intercalate_inj {ls ms : List (List α)} (hl : ∀ l ∈ ls, sep ∉ l) (hm : ∀ m ∈ ms, sep ∉ m)
    (hls : ls ≠ []) (hms : ms ≠ []) (h : [sep].intercalate ls = [sep].intercalate ms) :
    ls = ms := by
  rw [← List.splitOn_intercalate sep hl hls, h, List.splitOn_intercalate sep hm hms]

omit [DecidableEq α] in
theorem mem_intercalate {c : α} {ls : List (List α)} (h : c ∈ [sep].intercalate ls) :
    c = sep ∨ ∃ l ∈ ls, c ∈ l := by
  induction ls with
  | nil => cases h
  | cons l ls ih =>
      cases ls with
      | nil =>
          rw [List.intercalate_singleton] at h
          exact .inr ⟨l, List.mem_cons_self, h⟩
      | cons l' ls =>
          rw [List.intercalate_cons_cons] at h
          rcases List.mem_append.mp h with hword | hrest
          · rcases List.mem_append.mp hword with hword | hsep
            · exact .inr ⟨l, List.mem_cons_self, hword⟩
            · exact .inl (List.mem_singleton.mp hsep)
          · exact (ih hrest).imp_right fun ⟨m, hm, hc⟩ => ⟨m, List.mem_cons_of_mem _ hm, hc⟩

end

end Fields
