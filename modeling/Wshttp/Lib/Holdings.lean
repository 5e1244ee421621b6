/-
# `Wshttp.Lib.Holdings` — what objects hold together, and the books of a run

Each object of a map may hold something of its own, in any commutative monoid: a number of
bytes, a set of descriptors.

    total f m               what all objects of the map hold together
    totalAt f k m           what the object under one key holds
    totalAlong step g s as  what the steps of a run add up to

**Proved here.**  What leaves a map with an object is what the object held, and what comes
with a new object is what it holds: the sums before and after an operation differ by that
and nothing else.  If every step balances what comes in, what goes out and what is held,
so does every run (`balance_run`).
-/
import Wshttp.Lib.PtrMap
import Wshttp.Lib.Run
import Mathlib.Algebra.BigOperators.Group.Multiset.Basic
import Mathlib.Tactic.Abel

variable {K V W A : Type*} [DecidableEq K] [AddCommMonoid A]

/-! ## Maps -/

namespace Finmap

variable {f : V → A} {k : K} {v : V} {m : Finmap fun _ : K => V}

omit [DecidableEq K] in
def total (f : V → A) (m : Finmap fun _ : K => V) : A := (m.entries.map fun e => f e.2).sum

/-- What is held under `k`. -/
def totalAt (f : V → A) (k : K) (m : Finmap fun _ : K => V) : A := (m.lookup k).elim 0 f

omit [DecidableEq K] in
theorem total_empty : total f (∅ : Finmap fun _ : K => V) = 0 := rfl

theorem totalAt_of_lookup (h : m.lookup k = some v) : totalAt f k m = f v := by
  rw [totalAt, h]
  rfl

theorem totalAt_of_notMem (h : k ∉ m) : totalAt f k m = 0 := by
  rw [totalAt, lookup_eq_none.mpr h]
  rfl

theorem erase_of_notMem (h : k ∉ m) : m.erase k = m := by
  refine ext_lookup fun j => ?_
  rcases eq_or_ne j k with rfl | hne
  · rw [lookup_erase, lookup_eq_none.mpr h]
  · exact lookup_erase_ne hne

/-- It makes no difference to `insert` what was there. -/
theorem insert_erase (m : Finmap fun _ : K => V) : (m.erase k).insert k v = m.insert k v := by
  refine ext_lookup fun j => ?_
  rcases eq_or_ne j k with rfl | hne
  · rw [lookup_insert, lookup_insert]
  · rw [lookup_insert_of_ne _ hne, lookup_insert_of_ne _ hne, lookup_erase_ne hne]

theorem insert_of_lookup (h : m.lookup k = some v) : m.insert k v = m := by
  refine ext_lookup fun j => ?_
  rcases eq_or_ne j k with rfl | hne
  · rw [lookup_insert, h]
  · exact lookup_insert_of_ne _ hne

theorem total_insert (m : Finmap fun _ : K => V) :
    total f (m.insert k v) = f v + total f (m.erase k) := by
  rw [← insert_erase, total, entries_insert_of_notMem notMem_erase_self, Multiset.map_cons,
    Multiset.sum_cons]
  rfl

theorem totalAt_add_erase (m : Finmap fun _ : K => V) :
    totalAt f k m + total f (m.erase k) = total f m := by
  by_cases hk : k ∈ m
  · obtain ⟨v, hv⟩ := Option.isSome_iff_exists.mp (lookup_isSome.mpr hk)
    rw [totalAt_of_lookup hv, ← total_insert, insert_of_lookup hv]
  · rw [totalAt_of_notMem hk, erase_of_notMem hk, zero_add]

theorem total_insert_of_notMem (h : k ∉ m) : total f (m.insert k v) = f v + total f m := by
  rw [total_insert, erase_of_notMem h]

/-- An object that holds the same as the one it replaces changes nothing. -/
theorem total_insert_of_lookup {w : V} (h : m.lookup k = some w) (hf : f v = f w) :
    total f (m.insert k v) = total f m := by
  have hat : totalAt f k m = f w := totalAt_of_lookup h
  rw [total_insert, hf, ← hat, totalAt_add_erase]

end Finmap

namespace OwnerMap

variable {keyOf : V → K} {f : V → A} {k : K} {m : OwnerMap keyOf}

def total (f : V → A) (m : OwnerMap keyOf) : A := m.heap.total f

def totalAt (f : V → A) (k : K) (m : OwnerMap keyOf) : A :=
  match m.find k with
  | some (_, v) => f v
  | none => 0

theorem totalAt_of_find {p : Nat} {v : V} (h : m.find k = some (p, v)) : m.totalAt f k = f v := by
  rw [totalAt, h]

theorem total_survivors (m : OwnerMap keyOf) :
    m.totalAt f k + (m.survivors k).total f = m.total f := by
  cases hfind : m.find k with
  | some found =>
      obtain ⟨p, v⟩ := found
      obtain ⟨hptr, hv⟩ := find_eq_some.mp hfind
      have hat : Finmap.totalAt f p m.heap = f v := Finmap.totalAt_of_lookup hv
      rw [totalAt_of_find hfind, survivors_of_owned hptr, ← hat]
      exact Finmap.totalAt_add_erase m.heap
  | none =>
      have hno (p : Nat) : m.ptrs.lookup k ≠ some (some p) := by
        intro hptr
        obtain ⟨v, hv, -⟩ := m.owned k p hptr
        cases hfind.symm.trans (find_eq_some.mpr ⟨hptr, hv⟩)
      rw [totalAt, hfind, survivors_of_not_owned hno, zero_add]
      rfl

theorem total_erase (m : OwnerMap keyOf) : m.totalAt f k + (m.erase k).total f = m.total f :=
  total_survivors m

theorem total_emplaceNull (m : OwnerMap keyOf) : (m.emplaceNull k).total f = m.total f := rfl

/-- A placeholder owns nothing. -/
theorem find_emplaceNull (j : K) : (m.emplaceNull k).find j = m.find j := by
  have hlookup : (m.emplaceNull k).ptrs.lookup j = m.ptrs.lookup j ∨
      (m.emplaceNull k).ptrs.lookup j = some none ∧ m.ptrs.lookup j = none := by
    show (PtrMap.emplaceNull k m.ptrs).lookup j = _ ∨ (PtrMap.emplaceNull k m.ptrs).lookup j = _ ∧ _
    by_cases hk : k ∈ m.ptrs
    · exact .inl (by rw [PtrMap.emplaceNull, if_pos hk])
    rw [PtrMap.emplaceNull_of_notMem hk]
    rcases eq_or_ne j k with rfl | hne
    · exact .inr ⟨Finmap.lookup_insert _, Finmap.lookup_eq_none.mpr hk⟩
    · exact .inl (Finmap.lookup_insert_of_ne _ hne)
  unfold find
  rcases hlookup with hsame | ⟨hnull, hnone⟩
  · rw [hsame]
    rfl
  · rw [hnull, hnone]

theorem totalAt_emplaceNull (j : K) : (m.emplaceNull k).totalAt f j = m.totalAt f j := by
  rw [totalAt, find_emplaceNull]
  rfl

theorem totalAt_of_notMem (h : k ∉ m.ptrs) : m.totalAt f k = 0 := by
  cases hfind : m.find k with
  | some found =>
      obtain ⟨p, v⟩ := found
      exact absurd (Finmap.mem_of_lookup_eq_some (find_eq_some.mp hfind).1) h
  | none => rw [totalAt, hfind]

/-- A new object under a key that owned nothing. -/
theorem total_assign {v : V} (h : m.totalAt f (keyOf v) = 0) :
    (m.assign v).total f = f v + m.total f := by
  have hfresh : m.next ∉ m.survivors (keyOf v) := by
    intro hmem
    obtain ⟨w, hw⟩ := Option.isSome_iff_exists.mp (Finmap.lookup_isSome.mpr hmem)
    have hnext := m.next_notMem
    rw [(lookup_survivors.mp hw).1] at hnext
    cases hnext
  rw [← total_survivors (k := keyOf v) m, h, zero_add]
  exact Finmap.total_insert_of_notMem hfresh

theorem total_modify {p : Nat} {g : V → V} {hg : ∀ v, keyOf (g v) = keyOf v}
    (hf : ∀ v, f (g v) = f v) : (m.modify p g hg).total f = m.total f := by
  cases hv : m.heap.lookup p with
  | some v =>
      have hheap : (m.modify p g hg).heap = m.heap.insert p (g v) := by simp only [modify, hv]
      rw [total, hheap]
      exact Finmap.total_insert_of_lookup hv (hf v)
  | none =>
      have hheap : (m.modify p g hg).heap = m.heap := by simp only [modify, hv]
      rw [total, hheap]
      rfl

end OwnerMap

/-! ## Runs -/

namespace Machine

variable {σ α B : Type*} {step : σ → α → Option σ}

/-- What the steps of a run add up to, each in the state that it is taken in. -/
def totalAlong (step : σ → α → Option σ) (g : σ → α → A) : σ → List α → A
  | _, [] => 0
  | s, a :: as =>
      match step s a with
      | some t => g s a + totalAlong step g t as
      | none => 0

theorem totalAlong_cons {g : σ → α → A} {s t : σ} {a : α} (h : step s a = some t) (as : List α) :
    totalAlong step g s (a :: as) = g s a + totalAlong step g t as := by
  simp only [totalAlong, h]

theorem totalAlong_append {g : σ → α → A} {s t : σ} {as : List α} (h : run step s as = some t)
    (bs : List α) :
    totalAlong step g s (as ++ bs) = totalAlong step g s as + totalAlong step g t bs := by
  induction as generalizing s with
  | nil =>
      obtain rfl := Option.some.inj h
      exact (zero_add _).symm
  | cons a as ih =>
      obtain ⟨u, hu, hrest⟩ := run_cons_some.mp h
      rw [List.cons_append, totalAlong_cons hu, totalAlong_cons hu, ih hrest, add_assoc]

/-- If the state does not matter it is a sum over the actions. -/
theorem totalAlong_of_run {g : α → A} {s u : σ} {as : List α} (h : run step s as = some u) :
    totalAlong step (fun _ => g) s as = (as.map g).sum := by
  induction as generalizing s with
  | nil => rfl
  | cons a as ih =>
      obtain ⟨t, ht, hrest⟩ := run_cons_some.mp h
      rw [totalAlong_cons ht, ih hrest, List.map_cons, List.sum_cons]

/-- The books balance along a run.  `L` is where they are kept: a run that ends there has
been there all the time. -/
theorem balance_run {L : σ → Prop} {held : σ → A} {added lost : σ → α → A}
    (hback : ∀ s a t, step s a = some t → L t → L s)
    (hstep : ∀ s a t, step s a = some t → L t → held t + lost s a = held s + added s a)
    {s u : σ} {as : List α} (h : run step s as = some u) (hu : L u) :
    L s ∧ held u + totalAlong step lost s as = held s + totalAlong step added s as := by
  induction as generalizing s with
  | nil =>
      obtain rfl := Option.some.inj h
      exact ⟨hu, rfl⟩
  | cons a as ih =>
      obtain ⟨t, ht, hrest⟩ := run_cons_some.mp h
      obtain ⟨hLt, hbooks⟩ := ih hrest
      refine ⟨hback s a t ht hLt, ?_⟩
      have hone := hstep s a t ht hLt
      rw [totalAlong_cons ht, totalAlong_cons ht]
      calc held u + (lost s a + totalAlong step lost t as)
          = (held u + totalAlong step lost t as) + lost s a := by abel
        _ = (held t + lost s a) + totalAlong step added t as := by
            rw [hbooks]
            abel
        _ = held s + (added s a + totalAlong step added t as) := by
            rw [hone]
            abel

theorem totalAlong_eq_zero_iff {g : σ → α → Multiset B} {s : σ} {as : List α} :
    totalAlong step g s as = 0 ↔ Along step (fun s a _ => g s a = 0) s as := by
  induction as generalizing s with
  | nil => exact iff_of_true rfl trivial
  | cons a as ih =>
      rcases ht : step s a with _ | t
      · refine iff_of_true ?_ fun t ht' => ?_
        · simp only [totalAlong, ht]
        · cases ht.symm.trans ht'
      rw [totalAlong_cons ht, along_cons ht, ← ih]
      simp only [Multiset.eq_zero_iff_forall_notMem, Multiset.mem_add, not_or, forall_and]

end Machine
