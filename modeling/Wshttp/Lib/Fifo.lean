/-
# `Wshttp.Lib.Fifo` — a log with a cursor

What a job queue is for, said without a queue: everything ever issued stands in
one list, and a cursor says how many of its entries have been taken.  An entry
is taken when the cursor passes it, so by construction it is taken at most once
and in the order of issue, and nothing issued is ever lost.  An implementation
that splits the untaken part over several containers refines this machine.
-/
import Wshttp.Lib.Run

/-- Everything issued so far, and how much of it has been taken. -/
structure Fifo (J : Type*) where
  issued : List J
  taken : Nat
  taken_le : taken ≤ issued.length

namespace Fifo

variable {J : Type*}

/-- The entries taken, oldest first. -/
def done (q : Fifo J) : List J := q.issued.take q.taken

/-- The entries issued and not yet taken, oldest first. -/
def pending (q : Fifo J) : List J := q.issued.drop q.taken

inductive Act (J : Type*) where
  | issue (j : J)
  | take

/-- Issuing appends to the log; taking moves the cursor over the oldest pending entry. -/
def step (q : Fifo J) : Act J → Option (Fifo J)
  | .issue j =>
      some { issued := q.issued ++ [j], taken := q.taken,
             taken_le := by simpa using Nat.le_succ_of_le q.taken_le }
  | .take =>
      if h : q.taken < q.issued.length then
        some { issued := q.issued, taken := q.taken + 1, taken_le := h }
      else none

def empty : Fifo J := ⟨[], 0, Nat.le_refl 0⟩

theorem done_append_pending (q : Fifo J) : q.done ++ q.pending = q.issued :=
  List.take_append_drop q.taken q.issued

theorem done_prefix (q : Fifo J) : q.done <+: q.issued := List.take_prefix q.taken q.issued

/-- Taking hands out the oldest pending entry, and only that one. -/
theorem step_take {q : Fifo J} {j : J} {rest : List J} (h : q.pending = j :: rest) :
    ∃ q', step q .take = some q' ∧ q'.issued = q.issued ∧ q'.done = q.done ++ [j] ∧
      q'.pending = rest := by
  have hlt : q.taken < q.issued.length := by
    have hlen := congrArg List.length h
    simp only [pending, List.length_drop, List.length_cons] at hlen
    omega
  refine ⟨⟨q.issued, q.taken + 1, hlt⟩, by simp [step, hlt], rfl, ?_, ?_⟩
  · show q.issued.take (q.taken + 1) = q.issued.take q.taken ++ [j]
    have hj : q.issued[q.taken]? = some j := by
      rw [← List.head?_drop]
      exact congrArg List.head? h
    rw [List.take_add_one, hj]
    rfl
  · show q.issued.drop (q.taken + 1) = rest
    rw [← List.tail_drop]
    exact congrArg List.tail h

theorem step_issue (q : Fifo J) (j : J) :
    ∃ q', step q (.issue j) = some q' ∧ q'.issued = q.issued ++ [j] ∧ q'.done = q.done ∧
      q'.pending = q.pending ++ [j] := by
  refine ⟨_, rfl, rfl, ?_, ?_⟩
  · exact List.take_append_of_le_length q.taken_le
  · exact List.drop_append_of_le_length q.taken_le

end Fifo
