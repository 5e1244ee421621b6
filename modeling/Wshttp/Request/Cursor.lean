/-
# `Wshttp.Request.Cursor` — `headers` as a container, and its cursor

A `headers` holds its pairs in a vector and has a cursor, `_index`.

| constructor              | its body                     | pairs held |
| :----------------------- | :--------------------------- | :--------- |
| `headers(name, val)`     | `make_pair(...)`, dropped    | none       |
| `headers(FIELD, val)`    | `add_field(...)`             | one        |
| `make_status(CODE)`      | `headers{name, val}`         | none       |

`end` compares with `size() - 1` and `next` takes the index modulo the size: both are
arithmetic in `size_t`, and on an empty vector the one wraps and the other divides by
zero.

**Proved here.**  The container holds the pairs it was given, and the cursor visits them
in order, exactly if it was built by the constructor that takes a `FIELD`
(`headers_hold_iff`).
-/
import Wshttp.Request

namespace Wshttp.req

abbrev Pair := Bytes × Bytes

namespace Headers

/-- `headers(FIELD f, uspan val, flags)`. -/
def ofField (f : FIELD) (value : Bytes) (flags : UInt8) : Headers :=
  (⟨[]⟩ : Headers).addField f value flags

def addPair (name value : Bytes) (flags : UInt8) (h : Headers) : Headers :=
  ⟨h.hdrs ++ [makePair name value flags]⟩

/-- `operator[]`; `none` is an access past the end. -/
def at? (h : Headers) (i : Nat) : Option Pair := h.hdrs[i]?.map fun nv => (nv.name, nv.value)

end Headers

/-- What a call of the cursor may end in instead of a pair. -/
inductive CursorFault where
  | pastTheEnd
  | divisionByZero
  deriving DecidableEq

/-- `headers`, with `_index`. -/
structure Cursor where
  headers : Headers
  index : Nat := 0

namespace Cursor

/-- `size() - 1`, in `size_t`. -/
def last (c : Cursor) : Nat := if c.headers.size = 0 then UInt64.size - 1 else c.headers.size - 1

/-- `end`. -/
def atEnd (c : Cursor) : Bool := c.index == c.last

def current (c : Cursor) : Except CursorFault Pair :=
  match c.headers.at? c.index with
  | some pair => .ok pair
  | none => .error .pastTheEnd

def next (c : Cursor) : Except CursorFault (Pair × Cursor) :=
  if c.headers.size = 0 then .error .divisionByZero
  else
    let c := { c with index := (c.index + 1) % c.headers.size }
    c.current.map (·, c)

/-- `while (not end()) next()`: the pairs it gives.  `none` if it takes more than
`fuel` turns. -/
def nexts : Nat → Cursor → Option (Except CursorFault (List Pair × Cursor))
  | 0, c => if c.atEnd then some (.ok ([], c)) else none
  | fuel + 1, c =>
      if c.atEnd then some (.ok ([], c))
      else
        match c.next with
        | .error f => some (.error f)
        | .ok (pair, c) => (nexts fuel c).map (·.map fun rest => (pair :: rest.1, rest.2))

end Cursor

/-! ## What a container was given -/

/-- How a `headers` is constructed. -/
inductive Constructor where
  | pair (name value : Bytes) (flags : UInt8)
  | field (f : FIELD) (value : Bytes) (flags : UInt8)
  | status (s : CODE)

/-- A call of `add_field` or `add_pair`. -/
inductive Addition where
  | field (f : FIELD) (value : Bytes) (flags : UInt8)
  | pair (name value : Bytes) (flags : UInt8)

def Constructor.build : Constructor → Headers
  | .pair name value flags => .ofPair name value flags
  | .field f value flags => .ofField f value flags
  | .status s => .makeStatus s

def Constructor.given : Constructor → Pair
  | .pair name value _ => (name, value)
  | .field f value _ => (fieldName f, value)
  | .status s => (fields.status, codeValue s)

def Constructor.isField : Constructor → Bool
  | .field _ _ _ => true
  | .pair _ _ _ | .status _ => false

def Addition.apply (h : Headers) : Addition → Headers
  | .field f value flags => h.addField f value flags
  | .pair name value flags => h.addPair name value flags

def Addition.given : Addition → Pair
  | .field f value _ => (fieldName f, value)
  | .pair name value _ => (name, value)

/-- An object after its construction and some additions. -/
structure Built where
  ctor : Constructor
  additions : List Addition

namespace Built

def headers (b : Built) : Headers := b.additions.foldl Addition.apply b.ctor.build

def given (b : Built) : List Pair := b.ctor.given :: b.additions.map Addition.given

/-- `current()` gives the first pair, `next()` until `end()` the others, and one more
`next()` the first again. -/
def Visits (c : Cursor) (pairs : List Pair) : Prop :=
  ∃ first rest c' c'', c.current = .ok first ∧
    c.nexts pairs.length = some (.ok (rest, c')) ∧ first :: rest = pairs ∧
    c'.next = .ok (first, c'')

/-- The container and its cursor do what their user expects. -/
structure Holds (b : Built) : Prop where
  size : b.headers.size = 1 + b.additions.length
  at? : ∀ i < b.headers.size, b.headers.at? i = b.given[i]?
  visits : Visits { headers := b.headers } b.given

end Built

/-! ## The container -/

section
variable {h : Headers} {pairs : List Pair}

/-- The container has these pairs, in this order. -/
def Headers.Has (h : Headers) (pairs : List Pair) : Prop :=
  h.hdrs.map (fun nv => (nv.name, nv.value)) = pairs

theorem Headers.Has.apply (hh : h.Has pairs) (a : Addition) :
    (a.apply h).Has (pairs ++ [a.given]) := by
  cases a with
  | field f value flags =>
      show (h.hdrs ++ [makeHeader f value flags]).map _ = _
      rw [List.map_append, hh]
      rfl
  | pair name value flags =>
      show (h.hdrs ++ [makePair name value flags]).map _ = _
      rw [List.map_append, hh]
      rfl

theorem Headers.Has.applyAll (hh : h.Has pairs) (additions : List Addition) :
    (additions.foldl Addition.apply h).Has (pairs ++ additions.map Addition.given) := by
  induction additions generalizing h pairs with
  | nil =>
      rw [List.map_nil, List.append_nil]
      exact hh
  | cons a rest ih =>
      rw [List.foldl_cons, List.map_cons, List.append_cons]
      exact ih (hh.apply a)

theorem Headers.Has.size (hh : h.Has pairs) : h.size = pairs.length := by
  rw [← hh, List.length_map]
  rfl

theorem Headers.Has.at? (hh : h.Has pairs) (i : Nat) : h.at? i = pairs[i]? := by
  rw [← hh, List.getElem?_map]
  rfl

/-- What a constructor leaves in the vector. -/
theorem has_build (c : Constructor) : c.build.Has (if c.isField then [c.given] else []) := by
  cases c with
  | pair | field | status => rfl

/-! ## The cursor -/

namespace Cursor

theorem current_eq (hh : h.Has pairs) {i : Nat} (hi : i < pairs.length) :
    current ⟨h, i⟩ = .ok pairs[i] := by
  rw [current, hh.at?, List.getElem?_eq_getElem hi]

theorem next_eq (hh : h.Has pairs) {i j : Nat} (hj : j < pairs.length)
    (hij : (i + 1) % pairs.length = j) : next ⟨h, i⟩ = .ok (pairs[j], ⟨h, j⟩) := by
  have hsize : h.size = pairs.length := hh.size
  have hne : ¬ h.size = 0 := by omega
  show (if h.size = 0 then _ else (current ⟨h, (i + 1) % h.size⟩).map _) = _
  rw [if_neg hne, hsize, hij, current_eq hh hj]
  rfl

theorem atEnd_eq (hh : h.Has pairs) (hne : pairs ≠ []) (i : Nat) :
    atEnd ⟨h, i⟩ = (i == pairs.length - 1) := by
  have hpos := List.length_pos_iff.mpr hne
  have hsize : h.size = pairs.length := hh.size
  have hsome : ¬ h.size = 0 := by omega
  show (i == if h.size = 0 then _ else h.size - 1) = _
  rw [if_neg hsome, hsize]

/-- From the index `i`, the cursor goes through what is behind it and stops at the end.
The induction is on the number of turns there are left. -/
theorem nexts_eq (hh : h.Has pairs) (turns : Nat) {i fuel : Nat}
    (hi : i + turns + 1 = pairs.length) (hfuel : turns ≤ fuel) :
    nexts fuel ⟨h, i⟩ = some (.ok (pairs.drop (i + 1), ⟨h, pairs.length - 1⟩)) := by
  have hne : pairs ≠ [] := by
    rintro rfl
    cases hi
  induction turns generalizing i fuel with
  | zero =>
      have hend : atEnd ⟨h, i⟩ = true := by
        rw [atEnd_eq hh hne]
        exact beq_iff_eq.mpr (by omega)
      have hdrop : pairs.drop (i + 1) = [] := List.drop_eq_nil_of_le (by omega)
      have hlast : pairs.length - 1 = i := by omega
      rw [hdrop, hlast]
      cases fuel with
      | zero => exact if_pos hend
      | succ fuel => exact if_pos hend
  | succ turns ih =>
      have hend : atEnd ⟨h, i⟩ = false := by
        rw [atEnd_eq hh hne]
        exact beq_eq_false_iff_ne.mpr (by omega)
      obtain ⟨fuel, rfl⟩ : ∃ n, fuel = n + 1 := ⟨fuel - 1, by omega⟩
      have hlt : i + 1 < pairs.length := by omega
      rw [nexts, hend, if_neg Bool.false_ne_true, next_eq hh hlt (Nat.mod_eq_of_lt hlt)]
      dsimp only
      rw [ih (by omega) (by omega), List.drop_eq_getElem_cons hlt]
      rfl

theorem visits_of_has (hh : h.Has pairs) (hne : pairs ≠ []) :
    Built.Visits { headers := h } pairs := by
  have hpos := List.length_pos_iff.mpr hne
  refine ⟨pairs[0], pairs.drop 1, ⟨h, pairs.length - 1⟩, ⟨h, 0⟩, ?_, ?_, ?_, ?_⟩
  · exact current_eq hh hpos
  · exact nexts_eq hh (pairs.length - 1) (i := 0) (by omega) (by omega)
  · exact (List.drop_eq_getElem_cons hpos).symm
  · exact next_eq hh hpos (by rw [Nat.sub_add_cancel hpos, Nat.mod_self])

end Cursor

/-- **A container holds what it was given exactly if it was built from a `FIELD`.**
For every constructor, and every sequence of additions. -/
theorem headers_hold_iff (b : Built) : b.Holds ↔ b.ctor.isField = true := by
  have hhas : b.headers.Has
      ((if b.ctor.isField then [b.ctor.given] else []) ++ b.additions.map Addition.given) :=
    (has_build b.ctor).applyAll b.additions
  constructor
  · intro hholds
    by_contra hfield
    rw [if_neg hfield, List.nil_append] at hhas
    have hsize := hholds.size
    rw [hhas.size, List.length_map] at hsize
    omega
  · intro hfield
    rw [if_pos hfield] at hhas
    change b.headers.Has b.given at hhas
    refine ⟨?_, fun i _ => hhas.at? i, Cursor.visits_of_has hhas (List.cons_ne_nil _ _)⟩
    rw [hhas.size, Built.given, List.length_cons, List.length_map, Nat.add_comm]

end

/-- The status headers of a response: nothing is in them, and the cursor faults. -/
theorem status_headers_empty :
    ¬ (⟨.status ._404, []⟩ : Built).Holds ∧
      (⟨.status ._404, []⟩ : Built).headers.size = 0 ∧
      Cursor.current { headers := (⟨.status ._404, []⟩ : Built).headers } = .error .pastTheEnd ∧
      Cursor.atEnd { headers := (⟨.status ._404, []⟩ : Built).headers } = false ∧
      (match Cursor.next { headers := (⟨.status ._404, []⟩ : Built).headers } with
        | .error f => f = .divisionByZero
        | .ok _ => False) := by
  refine ⟨fun h => ?_, rfl, rfl, rfl, rfl⟩
  cases h.size

end Wshttp.req
