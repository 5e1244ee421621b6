/-
# `Wshttp.Lib.PtrMap` — maps of owning pointers

A map whose values are smart pointers has three kinds of answers for a key: no
entry, an entry that is null, an entry that owns an object.  A `PtrMap` keeps
them apart, and `NonNull` says that the middle kind does not occur.

An `OwnerMap` also keeps the objects, by identity: callers may hold on to an
object's identity while the map decides how long it lives.  Its three laws say
that the map is the sole owner, and that an object stands under its own key.
They are fields, so every operation below comes with the proof that it keeps
them.
-/
import Mathlib.Data.Finmap

variable {K V W : Type*}

/-- A map to smart pointers: `none` as a value is the null pointer. -/
abbrev PtrMap (K V : Type*) := Finmap fun _ : K => Option V

namespace PtrMap

variable [DecidableEq K]

/-- No entry is null. -/
def NonNull (m : PtrMap K V) : Prop := ∀ k, m.lookup k ≠ some none

/-- `try_emplace(k, nullptr)`: no effect if `k` has an entry. -/
def emplaceNull (k : K) (m : PtrMap K V) : PtrMap K V := if k ∈ m then m else m.insert k none

theorem nonNull_empty : NonNull (∅ : PtrMap K V) := by
  intro k h
  rw [Finmap.lookup_empty] at h
  cases h

theorem nonNull_insert {m : PtrMap K V} (hm : NonNull m) (k : K) (v : V) :
    NonNull (m.insert k (some v)) := by
  intro j
  by_cases hj : j = k
  · subst hj
    rw [Finmap.lookup_insert]
    intro h
    cases h
  · rw [Finmap.lookup_insert_of_ne m hj]
    exact hm j

theorem nonNull_erase {m : PtrMap K V} (hm : NonNull m) (k : K) : NonNull (m.erase k) := by
  intro j
  by_cases hj : j = k
  · subst hj
    rw [Finmap.lookup_erase]
    intro h
    cases h
  · rw [Finmap.lookup_erase_ne hj]
    exact hm j

theorem emplaceNull_of_notMem {m : PtrMap K V} {k : K} (hk : k ∉ m) :
    emplaceNull k m = m.insert k none := if_neg hk

theorem nonNull_iff_entries {m : PtrMap K V} :
    (∀ e ∈ m.entries, e.2.isSome = true) ↔ NonNull m := by
  constructor
  · intro h k hk
    have hnull := h ⟨k, none⟩ (Finmap.lookup_eq_some_iff.mp hk)
    cases hnull
  · rintro h ⟨k, v⟩ he
    cases v with
    | some v => rfl
    | none => exact absurd (Finmap.lookup_eq_some_iff.mpr he) (h k)

instance (m : PtrMap K V) : Decidable (NonNull m) := decidable_of_iff _ nonNull_iff_entries

/-! ## The same call on every object -/

omit [DecidableEq K] in
theorem keys_map_entries (f : V → W) (m : PtrMap K V) :
    (m.entries.map fun e => (⟨e.1, e.2.map f⟩ : Sigma fun _ : K => Option W)).keys
      = m.entries.keys := by
  simp [Multiset.keys]

def mapValues (f : V → W) (m : PtrMap K V) : PtrMap K W :=
  ⟨m.entries.map fun e => ⟨e.1, e.2.map f⟩, by
    rw [← Multiset.nodup_keys, keys_map_entries]
    exact m.nodupKeys.nodup_keys⟩

theorem lookup_mapValues (f : V → W) (m : PtrMap K V) (k : K) :
    (mapValues f m).lookup k = (m.lookup k).map (Option.map f) := by
  refine Option.ext fun w => ?_
  rw [Finmap.lookup_eq_some_iff]
  simp only [mapValues, Multiset.mem_map, Option.map_eq_some_iff]
  constructor
  · rintro ⟨⟨j, v⟩, he, heq⟩
    obtain ⟨rfl, hv⟩ := Sigma.mk.inj heq
    exact ⟨v, Finmap.lookup_eq_some_iff.mpr he, eq_of_heq hv⟩
  · rintro ⟨v, hv, rfl⟩
    exact ⟨⟨k, v⟩, Finmap.lookup_eq_some_iff.mp hv, rfl⟩

end PtrMap

/-! ## Maps that decide how long their objects live -/

/-- A map to pointers together with the objects they own.  `keyOf` is the key an
object carries itself. -/
structure OwnerMap {K V : Type*} [DecidableEq K] (keyOf : V → K) where
  ptrs : PtrMap K Nat
  heap : Finmap fun _ : Nat => V
  /-- no object has had this identity, or a larger one -/
  next : Nat
  owned : ∀ k p, ptrs.lookup k = some (some p) → ∃ v, heap.lookup p = some v ∧ keyOf v = k
  held : ∀ p v, heap.lookup p = some v → ptrs.lookup (keyOf v) = some (some p)
  fresh : ∀ p v, heap.lookup p = some v → p < next

namespace OwnerMap

variable [DecidableEq K] {keyOf : V → K}

def empty : OwnerMap keyOf where
  ptrs := ∅
  heap := ∅
  next := 0
  owned := by
    intro k p h
    rw [Finmap.lookup_empty] at h
    cases h
  held := by
    intro p v h
    rw [Finmap.lookup_empty] at h
    cases h
  fresh := by
    intro p v h
    rw [Finmap.lookup_empty] at h
    cases h

/-- The object under `k`, with its identity. -/
def find (m : OwnerMap keyOf) (k : K) : Option (Nat × V) :=
  match m.ptrs.lookup k with
  | some (some p) => (m.heap.lookup p).map (p, ·)
  | _ => none

theorem find_eq_some {m : OwnerMap keyOf} {k : K} {p : Nat} {v : V} :
    m.find k = some (p, v) ↔ m.ptrs.lookup k = some (some p) ∧ m.heap.lookup p = some v := by
  unfold find
  split
  · next q hq =>
    simp only [Option.map_eq_some_iff, Prod.mk.injEq]
    constructor
    · rintro ⟨w, hw, rfl, rfl⟩
      exact ⟨hq, hw⟩
    · rintro ⟨hp, hv⟩
      obtain rfl := Option.some.inj (Option.some.inj (hq.symm.trans hp))
      exact ⟨v, hv, rfl, rfl⟩
  · next hno =>
    constructor
    · intro h; cases h
    · rintro ⟨hp, -⟩
      exact absurd hp (hno p)

theorem next_notMem (m : OwnerMap keyOf) : m.heap.lookup m.next = none := by
  cases h : m.heap.lookup m.next with
  | none => rfl
  | some v => exact absurd (m.fresh m.next v h) (Nat.lt_irrefl _)

/-! ### The objects that survive when `k` loses its pointer -/

def survivors (m : OwnerMap keyOf) (k : K) : Finmap fun _ : Nat => V :=
  match m.ptrs.lookup k with
  | some (some p) => m.heap.erase p
  | _ => m.heap

theorem lookup_survivors {m : OwnerMap keyOf} {k : K} {p : Nat} {v : V} :
    (m.survivors k).lookup p = some v ↔ m.heap.lookup p = some v ∧ keyOf v ≠ k := by
  unfold survivors
  split
  · next q hq =>
    by_cases hp : p = q
    · subst hp
      rw [Finmap.lookup_erase]
      constructor
      · intro h; cases h
      · rintro ⟨hv, hk⟩
        obtain ⟨w, hw, rfl⟩ := m.owned k p hq
        obtain rfl := Option.some.inj (hv.symm.trans hw)
        exact absurd rfl hk
    · rw [Finmap.lookup_erase_ne hp]
      constructor
      · intro hv
        refine ⟨hv, ?_⟩
        rintro rfl
        exact hp (Option.some.inj (Option.some.inj ((m.held p v hv).symm.trans hq)))
      · exact And.left
  · next hno =>
    constructor
    · intro hv
      refine ⟨hv, ?_⟩
      rintro rfl
      exact hno p (m.held p v hv)
    · exact And.left

theorem survivors_of_owned {m : OwnerMap keyOf} {k : K} {p : Nat}
    (h : m.ptrs.lookup k = some (some p)) : m.survivors k = m.heap.erase p := by
  simp only [survivors, h]

theorem survivors_of_not_owned {m : OwnerMap keyOf} {k : K}
    (h : ∀ p, m.ptrs.lookup k ≠ some (some p)) : m.survivors k = m.heap := by
  unfold survivors
  split
  · next p hp => exact absurd hp (h p)
  · rfl

/-! ### The operations -/

/-- `try_emplace(k, nullptr)`. -/
def emplaceNull (k : K) (m : OwnerMap keyOf) : OwnerMap keyOf where
  ptrs := m.ptrs.emplaceNull k
  heap := m.heap
  next := m.next
  owned := by
    intro j p h
    unfold PtrMap.emplaceNull at h
    split at h
    · exact m.owned j p h
    · by_cases hj : j = k
      · subst hj
        rw [Finmap.lookup_insert] at h
        cases h
      · rw [Finmap.lookup_insert_of_ne _ hj] at h
        exact m.owned j p h
  held := by
    intro p v h
    have hk := m.held p v h
    unfold PtrMap.emplaceNull
    split
    · exact hk
    · next hno =>
      have hne : keyOf v ≠ k := by
        rintro rfl
        exact hno (Finmap.mem_of_lookup_eq_some hk)
      rw [Finmap.lookup_insert_of_ne _ hne]
      exact hk
  fresh := m.fresh

/-- The entry of a new object's key becomes its owner; what it owned before is destroyed. -/
def assign (v : V) (m : OwnerMap keyOf) : OwnerMap keyOf where
  ptrs := m.ptrs.insert (keyOf v) (some m.next)
  heap := (m.survivors (keyOf v)).insert m.next v
  next := m.next + 1
  owned := by
    intro k p h
    by_cases hk : k = keyOf v
    · subst hk
      rw [Finmap.lookup_insert] at h
      obtain rfl := Option.some.inj (Option.some.inj h)
      exact ⟨v, Finmap.lookup_insert _, rfl⟩
    · rw [Finmap.lookup_insert_of_ne _ hk] at h
      obtain ⟨w, hw, rfl⟩ := m.owned k p h
      have hp : p ≠ m.next := Nat.ne_of_lt (m.fresh p w hw)
      refine ⟨w, ?_, rfl⟩
      rw [Finmap.lookup_insert_of_ne _ hp]
      exact lookup_survivors.mpr ⟨hw, hk⟩
  held := by
    intro p w h
    by_cases hp : p = m.next
    · subst hp
      rw [Finmap.lookup_insert] at h
      obtain rfl := Option.some.inj h
      exact Finmap.lookup_insert _
    · rw [Finmap.lookup_insert_of_ne _ hp] at h
      obtain ⟨hw, hk⟩ := lookup_survivors.mp h
      rw [Finmap.lookup_insert_of_ne _ hk]
      exact m.held p w hw
  fresh := by
    intro p w h
    by_cases hp : p = m.next
    · omega
    · rw [Finmap.lookup_insert_of_ne _ hp] at h
      have := m.fresh p w (lookup_survivors.mp h).1
      omega

/-- Removing an entry destroys what it owns. -/
def erase (k : K) (m : OwnerMap keyOf) : OwnerMap keyOf where
  ptrs := m.ptrs.erase k
  heap := m.survivors k
  next := m.next
  owned := by
    intro j p h
    by_cases hj : j = k
    · subst hj
      rw [Finmap.lookup_erase] at h
      cases h
    · rw [Finmap.lookup_erase_ne hj] at h
      obtain ⟨v, hv, rfl⟩ := m.owned j p h
      exact ⟨v, lookup_survivors.mpr ⟨hv, hj⟩, rfl⟩
  held := by
    intro p v h
    obtain ⟨hv, hk⟩ := lookup_survivors.mp h
    rw [Finmap.lookup_erase_ne hk]
    exact m.held p v hv
  fresh := by
    intro p v h
    exact m.fresh p v (lookup_survivors.mp h).1

/-- `clear()`. -/
def clear (m : OwnerMap keyOf) : OwnerMap keyOf where
  ptrs := ∅
  heap := ∅
  next := m.next
  owned := empty.owned
  held := empty.held
  fresh := by
    intro p v h
    rw [Finmap.lookup_empty] at h
    cases h

/-- An object changes in place, under its key. -/
def modify (p : Nat) (f : V → V) (hf : ∀ v, keyOf (f v) = keyOf v) (m : OwnerMap keyOf) :
    OwnerMap keyOf where
  ptrs := m.ptrs
  heap := match m.heap.lookup p with
    | some v => m.heap.insert p (f v)
    | none => m.heap
  next := m.next
  owned := by
    intro k q h
    obtain ⟨w, hw, rfl⟩ := m.owned k q h
    split
    · next v hv =>
      by_cases hq : q = p
      · subst hq
        obtain rfl := Option.some.inj (hv.symm.trans hw)
        exact ⟨f v, Finmap.lookup_insert _, hf v⟩
      · exact ⟨w, by rw [Finmap.lookup_insert_of_ne _ hq]; exact hw, rfl⟩
    · exact ⟨w, hw, rfl⟩
  held := by
    intro q w h
    split at h
    · next v hv =>
      by_cases hq : q = p
      · subst hq
        rw [Finmap.lookup_insert] at h
        obtain rfl := Option.some.inj h
        rw [hf]
        exact m.held q v hv
      · rw [Finmap.lookup_insert_of_ne _ hq] at h
        exact m.held q w h
    · exact m.held q w h
  fresh := by
    intro q w h
    split at h
    · next v hv =>
      by_cases hq : q = p
      · subst hq
        exact m.fresh q v hv
      · rw [Finmap.lookup_insert_of_ne _ hq] at h
        exact m.fresh q w h
    · exact m.fresh q w h

/-! ### What the operations do to an object -/

theorem lookup_heap_erase {m : OwnerMap keyOf} {k : K} {p : Nat} {v : V} :
    (m.erase k).heap.lookup p = some v ↔ m.heap.lookup p = some v ∧ keyOf v ≠ k :=
  lookup_survivors

theorem lookup_heap_assign {m : OwnerMap keyOf} {v w : V} {p : Nat} (h : m.heap.lookup p = some w)
    (hk : keyOf w ≠ keyOf v) : (m.assign v).heap.lookup p = some w := by
  have hp : p ≠ m.next := Nat.ne_of_lt (m.fresh p w h)
  show (Finmap.insert m.next v (m.survivors (keyOf v))).lookup p = some w
  rw [Finmap.lookup_insert_of_ne _ hp]
  exact lookup_survivors.mpr ⟨h, hk⟩

theorem lookup_heap_modify {m : OwnerMap keyOf} {p q : Nat} {f : V → V}
    {hf : ∀ v, keyOf (f v) = keyOf v} :
    (m.modify p f hf).heap.lookup q
      = if q = p then (m.heap.lookup p).map f else m.heap.lookup q := by
  show (match m.heap.lookup p with
    | some v => m.heap.insert p (f v)
    | none => m.heap).lookup q = _
  split
  · next v hv =>
    by_cases hq : q = p
    · subst hq
      rw [Finmap.lookup_insert, if_pos rfl, hv]
      rfl
    · rw [Finmap.lookup_insert_of_ne _ hq, if_neg hq]
  · next hv =>
    by_cases hq : q = p
    · subst hq
      rw [if_pos rfl, hv]
      rfl
    · rw [if_neg hq]

end OwnerMap
