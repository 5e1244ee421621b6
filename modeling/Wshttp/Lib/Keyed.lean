/-
# `Wshttp.Lib.Keyed` — calls that read and write one entry of a map

A call has a key and acts on the entry under it: from the entry it computes an
answer and the new entry.  Calls with different keys then commute, and a sequence
of calls falls apart into one sequence for each key:

    runAll cs m     all the calls, on the map
    runAt  acts v   the acts of one key, on its entry

`runAll_answers` and `runAll_lookup` say that the second is the projection of the
first, so that everything about one key can be proved about a single entry; and
`runAll_forall`, that what every call keeps holds of every entry and answer.  A `sweep`
acts on all entries, in an order that is the container's own, and every key has its one act.
-/
import Mathlib.Data.Finmap

namespace Keyed

variable {K V R : Type*}

/-- From an entry (`none`: there is none), an answer and the new entry. -/
abbrev Act (V R : Type*) := Option V → R × Option V

structure Call (K V R : Type*) where
  key : K
  act : Act V R

/-- The acts of one key, one after the other. -/
def runAt : List (Act V R) → Option V → List R × Option V
  | [], v => ([], v)
  | act :: acts, v => ((act v).1 :: (runAt acts (act v).2).1, (runAt acts (act v).2).2)

variable [DecidableEq K]

def write (k : K) (v : Option V) (m : Finmap fun _ : K => V) : Finmap fun _ : K => V :=
  match v with
  | some v => m.insert k v
  | none => m.erase k

def Call.apply (c : Call K V R) (m : Finmap fun _ : K => V) : R × Finmap fun _ : K => V :=
  ((c.act (m.lookup c.key)).1, write c.key (c.act (m.lookup c.key)).2 m)

/-- All the calls: their answers, with their keys, and the map. -/
def runAll : List (Call K V R) → (Finmap fun _ : K => V) →
    List (K × R) × Finmap fun _ : K => V
  | [], m => ([], m)
  | c :: cs, m =>
      ((c.key, (c.apply m).1) :: (runAll cs (c.apply m).2).1, (runAll cs (c.apply m).2).2)

/-! ## Entries -/

@[simp] theorem lookup_write (k : K) (v : Option V) (m : Finmap fun _ : K => V) :
    (write k v m).lookup k = v := by
  cases v with
  | none => exact Finmap.lookup_erase k m
  | some v => exact Finmap.lookup_insert m

theorem lookup_write_ne {j k : K} (h : j ≠ k) (v : Option V) (m : Finmap fun _ : K => V) :
    (write k v m).lookup j = m.lookup j := by
  cases v with
  | none => exact Finmap.lookup_erase_ne h
  | some v => exact Finmap.lookup_insert_of_ne m h

theorem write_comm {j k : K} (h : j ≠ k) (v w : Option V) (m : Finmap fun _ : K => V) :
    write j v (write k w m) = write k w (write j v m) := by
  refine Finmap.ext_lookup fun i => ?_
  by_cases hj : i = j
  · subst hj
    rw [lookup_write, lookup_write_ne h, lookup_write]
  by_cases hk : i = k
  · subst hk
    rw [lookup_write_ne hj, lookup_write, lookup_write]
  · rw [lookup_write_ne hj, lookup_write_ne hk, lookup_write_ne hk, lookup_write_ne hj]

/-- Writing back what is there changes nothing. -/
theorem write_lookup (k : K) (m : Finmap fun _ : K => V) : write k (m.lookup k) m = m := by
  refine Finmap.ext_lookup fun j => ?_
  by_cases hj : j = k
  · subst hj
    rw [lookup_write]
  · rw [lookup_write_ne hj]

/-! ## Calls with different keys -/

section
variable {a b : Call K V R} (h : a.key ≠ b.key) (m : Finmap fun _ : K => V)
include h

theorem answer_comm : (a.apply (b.apply m).2).1 = (a.apply m).1 := by
  show (a.act ((write b.key _ m).lookup a.key)).1 = _
  rw [lookup_write_ne h]
  rfl

theorem map_comm : (a.apply (b.apply m).2).2 = (b.apply (a.apply m).2).2 := by
  show write a.key (a.act ((write b.key _ m).lookup a.key)).2 (write b.key _ m)
    = write b.key (b.act ((write a.key _ m).lookup b.key)).2 (write a.key _ m)
  rw [lookup_write_ne h, lookup_write_ne h.symm, write_comm h]

end

/-! ## One key at a time -/

/-- The acts of the calls with key `k`, in order. -/
def actsOf (k : K) (cs : List (Call K V R)) : List (Act V R) :=
  (cs.filter (·.key = k)).map Call.act

/-- The answers that carry the key `k`, in order. -/
def answersOf (k : K) (answers : List (K × R)) : List R :=
  (answers.filter (·.1 = k)).map Prod.snd

theorem actsOf_cons_self (c : Call K V R) (cs : List (Call K V R)) :
    actsOf c.key (c :: cs) = c.act :: actsOf c.key cs := by
  simp [actsOf]

theorem actsOf_cons_ne {k : K} {c : Call K V R} (h : c.key ≠ k) (cs : List (Call K V R)) :
    actsOf k (c :: cs) = actsOf k cs := by
  simp [actsOf, h]

theorem runAll_projects (k : K) : ∀ (cs : List (Call K V R)) (m : Finmap fun _ : K => V),
    answersOf k (runAll cs m).1 = (runAt (actsOf k cs) (m.lookup k)).1 ∧
      (runAll cs m).2.lookup k = (runAt (actsOf k cs) (m.lookup k)).2 := by
  intro cs
  induction cs with
  | nil => intro m; exact ⟨rfl, rfl⟩
  | cons c cs ih =>
      intro m
      obtain ⟨ihAnswers, ihLookup⟩ := ih (c.apply m).2
      by_cases hk : c.key = k
      · subst hk
        have hentry : (c.apply m).2.lookup c.key = (c.act (m.lookup c.key)).2 :=
          lookup_write _ _ _
        rw [hentry] at ihAnswers ihLookup
        rw [actsOf_cons_self]
        refine ⟨?_, ihLookup⟩
        simp only [runAll, runAt, answersOf, List.filter_cons, decide_true, if_true, List.map_cons]
        exact congrArg _ ihAnswers
      · have hentry : (c.apply m).2.lookup k = m.lookup k :=
          lookup_write_ne (fun heq => hk heq.symm) _ _
        rw [hentry] at ihAnswers ihLookup
        rw [actsOf_cons_ne hk]
        refine ⟨?_, ihLookup⟩
        simp only [runAll, answersOf, List.filter_cons, hk, decide_false, Bool.false_eq_true,
          if_false]
        exact ihAnswers

theorem runAll_answers (k : K) (cs : List (Call K V R)) (m : Finmap fun _ : K => V) :
    answersOf k (runAll cs m).1 = (runAt (actsOf k cs) (m.lookup k)).1 :=
  (runAll_projects k cs m).1

theorem runAll_lookup (k : K) (cs : List (Call K V R)) (m : Finmap fun _ : K => V) :
    (runAll cs m).2.lookup k = (runAt (actsOf k cs) (m.lookup k)).2 :=
  (runAll_projects k cs m).2

/-! ## All the entries -/

/-- An order in which an unordered container goes through the keys it has. -/
structure Traversal (K : Type*) where
  keys : Finset K → List K
  perm : ∀ s, (keys s : Multiset K) = s.val

noncomputable instance {K : Type*} : Inhabited (Traversal K) := ⟨⟨Finset.toList, Finset.coe_toList⟩⟩

/-- The same act on every entry there is. -/
def sweep (t : Traversal K) (act : Act V R) (m : Finmap fun _ : K => V) :
    List (K × R) × Finmap fun _ : K => V :=
  runAll ((t.keys m.keys).map fun k => ⟨k, act⟩) m

theorem actsOf_sweep (t : Traversal K) (act : Act V R) (m : Finmap fun _ : K => V) (k : K) :
    actsOf k ((t.keys m.keys).map fun j => ⟨j, act⟩) = if k ∈ m then [act] else [] := by
  have hnodup : (t.keys m.keys).Nodup := by
    rw [← Multiset.coe_nodup, t.perm]
    exact m.keys.nodup
  have hmem : k ∈ t.keys m.keys ↔ k ∈ m := by
    rw [← Multiset.mem_coe, t.perm]
    exact Finmap.mem_keys
  have honce : (t.keys m.keys).filter (fun j => j = k) = if k ∈ m then [k] else [] := by
    rw [List.filter_eq, hnodup.count]
    simp only [hmem]
    split <;> rfl
  rw [actsOf, List.filter_map, List.map_map]
  show ((t.keys m.keys).filter fun j => j = k).map (fun _ => act) = _
  rw [honce]
  split <;> rfl

/-- Every entry has the act once, and nothing else is done to it. -/
theorem sweep_projects (t : Traversal K) (act : Act V R) (m : Finmap fun _ : K => V) (k : K) :
    answersOf k (sweep t act m).1 = (m.lookup k).toList.map (fun v => (act (some v)).1) ∧
      (sweep t act m).2.lookup k = (m.lookup k).bind fun v => (act (some v)).2 := by
  rw [sweep, runAll_answers, runAll_lookup, actsOf_sweep]
  cases hentry : m.lookup k with
  | none =>
      rw [if_neg (Finmap.lookup_eq_none.mp hentry)]
      exact ⟨rfl, rfl⟩
  | some v =>
      rw [if_pos (Finmap.mem_iff.mpr ⟨v, hentry⟩)]
      exact ⟨rfl, rfl⟩

/-! ## What every entry has -/

/-- A call keeps `P` of its entry, and gives an answer with `Q` where `P` holds. -/
def Keeps (P : V → Prop) (Q : R → Prop) (act : Act V R) : Prop :=
  ∀ entry, (∀ v ∈ entry, P v) → Q (act entry).1 ∧ ∀ v ∈ (act entry).2, P v

theorem apply_forall {P : V → Prop} {Q : R → Prop} {c : Call K V R} (hc : Keeps P Q c.act)
    {m : Finmap fun _ : K => V} (hm : ∀ k, ∀ v ∈ m.lookup k, P v) :
    Q (c.apply m).1 ∧ ∀ k, ∀ v ∈ (c.apply m).2.lookup k, P v := by
  obtain ⟨hanswer, hentry⟩ := hc (m.lookup c.key) (hm c.key)
  refine ⟨hanswer, fun k => ?_⟩
  by_cases hk : k = c.key
  · subst hk
    rw [Call.apply, lookup_write]
    exact hentry
  · rw [Call.apply, lookup_write_ne hk]
    exact hm k

/-- If every call keeps `P`, every answer has `Q`. -/
theorem runAll_forall {P : V → Prop} {Q : R → Prop} : ∀ (cs : List (Call K V R))
    (m : Finmap fun _ : K => V), (∀ c ∈ cs, Keeps P Q c.act) → (∀ k, ∀ v ∈ m.lookup k, P v) →
      ∀ a ∈ (runAll cs m).1, Q a.2 := by
  intro cs
  induction cs with
  | nil =>
      intro m _ _ a ha
      cases ha
  | cons c cs ih =>
      intro m hcs hm a ha
      obtain ⟨hanswer, hentries⟩ := apply_forall (hcs c List.mem_cons_self) hm
      rcases List.mem_cons.mp ha with rfl | hrest
      · exact hanswer
      · exact ih _ (fun d hd => hcs d (List.mem_cons_of_mem c hd)) hentries a hrest

end Keyed
