/-
# `Wshttp.Lib.History` — histories of calls, and the points where they take effect

A history is what happens to calls, in the order in which it happens:

    invoke t i op     thread t makes the call i, of the operation op
    exec i op r       the call takes effect, with the result r
    ended i           what was to be run for it has come back
    respond t i r     thread t has the answer r

`Orderly` says of every event what has to stand before it: a call takes effect once,
after it was made; its answer is the result it had then, and goes once to the thread
that made it.  So the effect of a call lies between the call and its answer, and the
order of the effects is an order of the calls that agrees with real time
(`Orderly.real_time`).  `Replays` says that in this order the calls have the results
they would have if they were made one after the other.  With both, the order of the
effects is a linearization of the history (`Orderly.linearizes`).

The relation `first` may ask for more: that some calls have ended before others take
effect.
-/
import Mathlib.Data.List.Induction
import Mathlib.Tactic.Common

namespace History

variable {Tid Id Op Res σ : Type*}

inductive Event (Tid Id Op Res : Type*) where
  | invoke (t : Tid) (i : Id) (op : Op)
  | exec (i : Id) (op : Op) (r : Res)
  | ended (i : Id)
  | respond (t : Tid) (i : Id) (r : Res)

open Event

/-! ## What stands before an event -/

def Justified (first : Id → Id → Prop) (h : List (Event Tid Id Op Res)) :
    Event Tid Id Op Res → Prop
  | invoke _ i _ => ∀ t op, invoke t i op ∉ h
  | exec i op _ =>
      (∃ t, invoke t i op ∈ h) ∧ (∀ op r, exec i op r ∉ h) ∧ ∀ j, first j i → ended j ∈ h
  | ended i => ∃ op r, exec i op r ∈ h
  | respond t i r => ∃ op, invoke t i op ∈ h ∧ exec i op r ∈ h ∧ ∀ t r, respond t i r ∉ h

def Orderly (first : Id → Id → Prop) (h : List (Event Tid Id Op Res)) : Prop :=
  ∀ before e after, h = before ++ e :: after → Justified first before e

section
variable {first : Id → Id → Prop} {h : List (Event Tid Id Op Res)} {e : Event Tid Id Op Res}
  {i : Id} {t u : Tid} {op op' : Op} {r r' : Res}

theorem orderly_nil : Orderly first ([] : List (Event Tid Id Op Res)) := by
  intro before e after hsplit
  cases before <;> cases hsplit

theorem Orderly.concat (hh : Orderly first h) (he : Justified first h e) :
    Orderly first (h ++ [e]) := by
  intro before x after hsplit
  rcases List.eq_nil_or_concat after with rfl | ⟨init, last, rfl⟩
  · obtain ⟨rfl, hlast⟩ := List.append_inj' hsplit rfl
    obtain rfl := List.singleton_inj.mp hlast
    exact he
  · rw [List.concat_eq_append, ← List.cons_append, ← List.append_assoc] at hsplit
    exact hh before x init (List.append_inj_left' hsplit rfl)

theorem Orderly.of_append {before after : List (Event Tid Id Op Res)}
    (hh : Orderly first (before ++ after)) : Orderly first before := by
  intro b e a hsplit
  exact hh b e (a ++ after) (by rw [hsplit, List.append_assoc, List.cons_append])

theorem Orderly.justified (hh : Orderly first h) (he : e ∈ h) :
    ∃ before after, h = before ++ e :: after ∧ Justified first before e := by
  obtain ⟨before, after, hsplit⟩ := List.append_of_mem he
  exact ⟨before, after, hsplit, hh before e after hsplit⟩

theorem Orderly.exec_invoked (hh : Orderly first h) (he : exec i op r ∈ h) :
    ∃ t, invoke t i op ∈ h := by
  obtain ⟨before, after, rfl, ⟨t, ht⟩, -⟩ := hh.justified he
  exact ⟨t, List.mem_append_left _ ht⟩

theorem Orderly.respond_exec (hh : Orderly first h) (he : respond t i r ∈ h) :
    ∃ op, invoke t i op ∈ h ∧ exec i op r ∈ h := by
  obtain ⟨before, after, rfl, op, ht, hexec, -⟩ := hh.justified he
  exact ⟨op, List.mem_append_left _ ht, List.mem_append_left _ hexec⟩

theorem Orderly.ended_exec (hh : Orderly first h) (he : ended i ∈ h) :
    ∃ op r, exec i op r ∈ h := by
  obtain ⟨before, after, rfl, op, r, hexec⟩ := hh.justified he
  exact ⟨op, r, List.mem_append_left _ hexec⟩

/-- A call is made once. -/
theorem Orderly.invoke_unique (hh : Orderly first h) (ht : invoke t i op ∈ h)
    (hu : invoke u i op' ∈ h) : t = u ∧ op = op' := by
  obtain ⟨before, after, rfl⟩ := List.append_of_mem ht
  have hfirst := hh before _ after rfl
  rcases List.mem_append.mp hu with hbefore | hafter
  · exact absurd hbefore (hfirst u op')
  rcases List.mem_cons.mp hafter with heq | hlater
  · cases heq
    exact ⟨rfl, rfl⟩
  · obtain ⟨mid, rest, rfl⟩ := List.append_of_mem hlater
    have hsecond := hh (before ++ invoke t i op :: mid) (invoke u i op') rest (by simp)
    exact absurd (List.mem_append_right _ List.mem_cons_self) (hsecond t op)

/-- If the answer to `a` comes before `b` is called, then `a` has taken effect by then,
and `b` has not. -/
theorem Orderly.real_time {a b : Id} {h₁ h₂ h₃ : List (Event Tid Id Op Res)}
    (hh : Orderly first (h₁ ++ respond t a r :: h₂ ++ invoke u b op :: h₃)) :
    (∃ op, exec a op r ∈ h₁) ∧ ∀ op r', exec b op r' ∉ h₁ ++ respond t a r :: h₂ := by
  constructor
  · obtain ⟨op', -, hexec, -⟩ := hh h₁ (respond t a r) (h₂ ++ invoke u b op :: h₃) (by simp)
    exact ⟨op', hexec⟩
  · intro op' r' hexec
    obtain ⟨v, hv⟩ := hh.of_append.exec_invoked hexec
    exact hh _ (invoke u b op) h₃ rfl v op' hv

/-- Of two calls one of which has to have ended before the other takes effect, the
first to take effect has ended by the time the second does. -/
theorem Orderly.alone {a b : Id} {h₁ h₂ h₃ : List (Event Tid Id Op Res)}
    (hh : Orderly first (h₁ ++ exec a op r :: h₂ ++ exec b op' r' :: h₃))
    (htotal : first a b ∨ first b a) : ended a ∈ h₂ := by
  obtain ⟨-, hb, hended⟩ := hh _ (exec b op' r') h₃ rfl
  obtain ⟨-, ha, hbefore⟩ := hh.of_append h₁ (exec a op r) h₂ rfl
  rcases htotal with hab | hba
  · rcases List.mem_append.mp (hended a hab) with hearly | hlate
    · obtain ⟨op, r, hexec⟩ := hh.of_append.of_append.ended_exec hearly
      exact absurd hexec (ha op r)
    · exact (List.mem_cons.mp hlate).resolve_left fun he => (nomatch he)
  · obtain ⟨op, r, hexec⟩ := hh.of_append.of_append.ended_exec (hbefore b hba)
    exact absurd (List.mem_append_left _ hexec) (hb op r)

end

/-! ## One after the other -/

/-- What an event does to the state that the operations share. -/
def Event.Effect (sem : Op → σ → Res × σ) (s : σ) : Event Tid Id Op Res → σ → Prop
  | exec _ op r, s' => sem op s = (r, s')
  | invoke _ _ _, s' | ended _, s' | respond _ _ _, s' => s = s'

def Replays (sem : Op → σ → Res × σ) : σ → List (Event Tid Id Op Res) → σ → Prop
  | s, [], s' => s = s'
  | s, e :: h, s' => ∃ u, e.Effect sem s u ∧ Replays sem u h s'

theorem replays_append {sem : Op → σ → Res × σ} {s s' : σ} {h h' : List (Event Tid Id Op Res)} :
    Replays sem s (h ++ h') s' ↔ ∃ u, Replays sem s h u ∧ Replays sem u h' s' := by
  induction h generalizing s with
  | nil => exact ⟨fun hr => ⟨s, rfl, hr⟩, fun ⟨_, rfl, hr⟩ => hr⟩
  | cons e h ih =>
      constructor
      · rintro ⟨u, he, hrest⟩
        obtain ⟨v, hv, hlast⟩ := ih.mp hrest
        exact ⟨v, ⟨u, he, hv⟩, hlast⟩
      · rintro ⟨v, ⟨u, he, hv⟩, hlast⟩
        exact ⟨u, he, ih.mpr ⟨v, hv, hlast⟩⟩

theorem Replays.concat {sem : Op → σ → Res × σ} {s s' u : σ} {h : List (Event Tid Id Op Res)}
    {e : Event Tid Id Op Res} (hh : Replays sem s h s') (he : e.Effect sem s' u) :
    Replays sem s (h ++ [e]) u :=
  replays_append.mpr ⟨s', hh, u, he, rfl⟩

/-- What the operations that happen keep, the history keeps. -/
theorem Replays.inv {sem : Op → σ → Res × σ} {I : σ → Prop} {P : Op → Prop}
    (hstep : ∀ op s, P op → I s → I (sem op s).2) {s s' : σ} {h : List (Event Tid Id Op Res)}
    (hh : Replays sem s h s') (hs : I s) (hP : ∀ i op r, exec i op r ∈ h → P op) : I s' := by
  induction h generalizing s with
  | nil => exact hh ▸ hs
  | cons e h ih =>
      obtain ⟨u, he, hrest⟩ := hh
      refine ih hrest ?_ fun i op r hmem => hP i op r (List.mem_cons_of_mem e hmem)
      cases e with
      | exec i op r =>
          have hu : (sem op s).2 = u := by rw [show sem op s = (r, u) from he]
          exact hu ▸ hstep op s (hP i op r List.mem_cons_self) hs
      | invoke t i op =>
          obtain rfl : s = u := he
          exact hs
      | ended i =>
          obtain rfl : s = u := he
          exact hs
      | respond t i r =>
          obtain rfl : s = u := he
          exact hs

/-! ## The calls -/

def Event.call : Event Tid Id Op Res → Option (Tid × Op)
  | invoke t _ op => some (t, op)
  | exec _ _ _ | ended _ | respond _ _ _ => none

/-- The calls in the order in which they are made. -/
def calls (h : List (Event Tid Id Op Res)) : List (Tid × Op) := h.filterMap Event.call

theorem calls_concat (h : List (Event Tid Id Op Res)) (e : Event Tid Id Op Res) :
    calls (h ++ [e]) = calls h ++ e.call.toList := by
  rw [calls, List.filterMap_append]
  cases e <;> rfl

/-! ## Linearizability -/

def Event.effect : Event Tid Id Op Res → Option (Id × Op × Res)
  | exec i op r => some (i, op, r)
  | invoke _ _ _ | ended _ | respond _ _ _ => none

/-- The calls in the order in which they take effect. -/
def effects (h : List (Event Tid Id Op Res)) : List (Id × Op × Res) := h.filterMap Event.effect

/-- The results are those of the calls made one after the other. -/
def Sequential (sem : Op → σ → Res × σ) : σ → List (Id × Op × Res) → Prop
  | _, [] => True
  | s, (_, op, r) :: calls => (sem op s).1 = r ∧ Sequential sem (sem op s).2 calls

/-- `order` is a sequential order of the calls of `h` that explains every answer and
agrees with real time. -/
structure Linearizes (sem : Op → σ → Res × σ) (s : σ) (h : List (Event Tid Id Op Res))
    (order : List (Id × Op × Res)) : Prop where
  sequential : Sequential sem s order
  once : (order.map Prod.fst).Nodup
  invoked : ∀ i op r, (i, op, r) ∈ order → ∃ t, invoke t i op ∈ h
  /-- an answer goes once, and to the thread that made the call -/
  answered : ∀ before after t i r, h = before ++ respond t i r :: after →
    (∃ op, invoke t i op ∈ before ∧ (i, op, r) ∈ order) ∧ ∀ u r', respond u i r' ∉ before
  realTime : ∀ h₁ h₂ h₃ t u a b r op, h = h₁ ++ respond t a r :: h₂ ++ invoke u b op :: h₃ →
    ∀ l₁ l₂ op' r', order = l₁ ++ (b, op', r') :: l₂ → ∃ op, (a, op, r) ∈ l₁

section
variable {first : Id → Id → Prop} {h : List (Event Tid Id Op Res)} {i : Id} {op : Op} {r : Res}

theorem mem_effects : (i, op, r) ∈ effects h ↔ exec i op r ∈ h := by
  simp only [effects, List.mem_filterMap]
  constructor
  · rintro ⟨e, he, heff⟩
    cases e with
    | exec j op' r' =>
        cases heff
        exact he
    | invoke | ended | respond => cases heff
  · intro he
    exact ⟨_, he, rfl⟩

theorem effects_append (h h' : List (Event Tid Id Op Res)) :
    effects (h ++ h') = effects h ++ effects h' := List.filterMap_append

/-- A place among the effects is a place in the history. -/
theorem effects_split {l₁ l₂ : List (Id × Op × Res)} (hsplit : effects h = l₁ ++ (i, op, r) :: l₂) :
    ∃ before after, h = before ++ exec i op r :: after ∧ effects before = l₁ := by
  obtain ⟨h₁, rest, rfl, hl₁, hrest⟩ := List.filterMap_eq_append_iff.mp hsplit
  obtain ⟨h₂, e, after, rfl, hnone, he, -⟩ := List.filterMap_eq_cons_iff.mp hrest
  obtain rfl : e = exec i op r := by
    cases e with
    | exec j op' r' =>
        cases he
        rfl
    | invoke | ended | respond => cases he
  refine ⟨h₁ ++ h₂, after, by rw [List.append_assoc], ?_⟩
  have hnothing : effects h₂ = [] := List.filterMap_eq_nil_iff.mpr hnone
  rw [effects_append, hnothing, List.append_nil]
  exact hl₁

/-- What has to have ended before a call takes effect, has taken effect before it. -/
theorem Orderly.first_effects {a b : Id} (hh : Orderly first h) (hab : first a b)
    {l₁ l₂ : List (Id × Op × Res)} (hsplit : effects h = l₁ ++ (b, op, r) :: l₂) :
    ∃ op r, (a, op, r) ∈ l₁ := by
  obtain ⟨before, after, rfl, rfl⟩ := effects_split hsplit
  obtain ⟨-, -, hended⟩ := hh before _ after rfl
  obtain ⟨op', r', hexec⟩ := hh.of_append.ended_exec (hended a hab)
  exact ⟨op', r', mem_effects.mpr hexec⟩

theorem Replays.sequential {sem : Op → σ → Res × σ} {s s' : σ} (hh : Replays sem s h s') :
    Sequential sem s (effects h) := by
  induction h generalizing s with
  | nil => trivial
  | cons e h ih =>
      obtain ⟨u, he, hrest⟩ := hh
      cases e with
      | exec i op r =>
          have hop : sem op s = (r, u) := he
          refine ⟨by rw [hop], ?_⟩
          rw [hop]
          exact ih hrest
      | invoke t i op =>
          obtain rfl : s = u := he
          exact ih hrest
      | ended i =>
          obtain rfl : s = u := he
          exact ih hrest
      | respond t i r =>
          obtain rfl : s = u := he
          exact ih hrest

theorem Orderly.effects_nodup (hh : Orderly first h) : ((effects h).map Prod.fst).Nodup := by
  induction h using List.reverseRecOn with
  | nil => exact List.nodup_nil
  | append_singleton h e ih =>
      have hrest := ih hh.of_append
      cases e with
      | exec i op r =>
          have hfresh := (hh h _ [] rfl).2.1
          rw [effects_append, List.map_append]
          refine List.nodup_append.mpr
            ⟨hrest, List.nodup_cons.mpr ⟨List.not_mem_nil, List.nodup_nil⟩, fun j hj k hk => ?_⟩
          obtain ⟨⟨j', op', r'⟩, hmem, rfl⟩ := List.mem_map.mp hj
          obtain rfl := List.mem_singleton.mp hk
          rintro rfl
          exact hfresh op' r' (mem_effects.mp hmem)
      | invoke | ended | respond =>
          rw [effects_append]
          show ((effects h ++ []).map Prod.fst).Nodup
          rwa [List.append_nil]

/-- The order of the effects is a linearization. -/
theorem Orderly.linearizes {sem : Op → σ → Res × σ} {s s' : σ} (hh : Orderly first h)
    (hr : Replays sem s h s') : Linearizes sem s h (effects h) where
  sequential := hr.sequential
  once := hh.effects_nodup
  invoked := fun _ _ _ hmem => hh.exec_invoked (mem_effects.mp hmem)
  answered := by
    rintro before after t i r rfl
    obtain ⟨op, hinvoke, hexec, hanswer⟩ := hh before _ after rfl
    exact ⟨⟨op, hinvoke, mem_effects.mpr (List.mem_append_left _ hexec)⟩, hanswer⟩
  realTime := by
    rintro h₁ h₂ h₃ t u a b r op rfl l₁ l₂ op' r' hsplit
    obtain ⟨⟨op₁, ha⟩, hb⟩ := hh.real_time
    have heffects : effects (h₁ ++ respond t a r :: h₂) ++ effects (invoke u b op :: h₃)
        = l₁ ++ (b, op', r') :: l₂ := by
      rw [← hsplit, ← effects_append]
    -- `b` is not among the effects before its call, so these are all in `l₁`
    rcases List.append_eq_append_iff.mp heffects with ⟨mid, hmid, -⟩ | ⟨mid, hmid, hlast⟩
    · refine ⟨op₁, ?_⟩
      rw [hmid]
      exact List.mem_append_left _ (mem_effects.mpr (List.mem_append_left _ ha))
    · cases mid with
      | nil =>
          refine ⟨op₁, ?_⟩
          rw [List.append_nil] at hmid
          rw [← hmid]
          exact mem_effects.mpr (List.mem_append_left _ ha)
      | cons x mid =>
          obtain ⟨rfl, -⟩ := List.cons.inj hlast
          refine absurd (mem_effects.mp ?_) (hb op' r')
          rw [hmid]
          exact List.mem_append_right _ List.mem_cons_self

end

end History
