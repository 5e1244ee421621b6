/-
# `Wshttp.Lib.Run` — runs of a partial step function

A machine is a function `step : σ → α → Option σ`; `none` says that the action
is not enabled, or that taking it ends the run.  Two notions carry all the
reasoning about whole runs:

    run step s as          the state after the actions `as`, if all are taken
    Along step Q s as      every step the run takes satisfies `Q before action after`

`Along` is what a statement about "every state reached" or "every call of the
run" becomes: it is prefix closed by construction, and it says nothing about
steps that are refused.  The rules below carry the inductions over runs: an
invariant, an invariant that needs a guard on the steps, a log that every step adds to, a
pointwise comparison of two step properties, a weight that falls until a goal is reached, and
two kinds of simulation.
-/
import Mathlib.Logic.Basic
import Mathlib.Tactic.Common

namespace Machine

variable {σ τ α β : Type*}

/-- The state after the actions `as`; `none` at the first one that is refused. -/
def run (step : σ → α → Option σ) : σ → List α → Option σ
  | s, [] => some s
  | s, a :: as => (step s a).bind fun t => run step t as

/-- Every step the run takes from `s` satisfies `Q` (before, action, after). -/
def Along (step : σ → α → Option σ) (Q : σ → α → σ → Prop) : σ → List α → Prop
  | _, [] => True
  | s, a :: as => ∀ t, step s a = some t → Q s a t ∧ Along step Q t as

section
variable {step : σ → α → Option σ} {Q R : σ → α → σ → Prop} {I : σ → Prop}

@[simp] theorem run_nil (s : σ) : run step s [] = some s := rfl

theorem run_cons {s t : σ} {a : α} (h : step s a = some t) (as : List α) :
    run step s (a :: as) = run step t as := by
  simp [run, h]

theorem run_cons_some {s u : σ} {a : α} {as : List α} :
    run step s (a :: as) = some u ↔ ∃ t, step s a = some t ∧ run step t as = some u := by
  simp [run, Option.bind_eq_some_iff]

theorem run_append {s u : σ} {as bs : List α} :
    run step s (as ++ bs) = some u ↔ ∃ t, run step s as = some t ∧ run step t bs = some u := by
  induction as generalizing s with
  | nil => simp
  | cons a as ih =>
      simp only [List.cons_append, run_cons_some, ih]
      constructor
      · rintro ⟨t, ht, v, hv, hu⟩
        exact ⟨v, ⟨t, ht, hv⟩, hu⟩
      · rintro ⟨v, ⟨t, ht, hv⟩, hu⟩
        exact ⟨t, ht, v, hv, hu⟩

/-! ## Invariants -/

/-- What every step preserves, every run preserves. -/
theorem run_inv (hstep : ∀ s a t, I s → step s a = some t → I t) {s u : σ} {as : List α}
    (hs : I s) (h : run step s as = some u) : I u := by
  induction as generalizing s with
  | nil => exact Option.some.inj h ▸ hs
  | cons a as ih =>
      obtain ⟨t, ht, hu⟩ := run_cons_some.mp h
      exact ih (hstep s a t hs ht) hu

/-- The same, for an invariant that only the steps satisfying `R` preserve. -/
theorem run_inv_along (hstep : ∀ s a t, I s → R s a t → step s a = some t → I t) {s u : σ}
    {as : List α} (hs : I s) (hR : Along step R s as) (h : run step s as = some u) : I u := by
  induction as generalizing s with
  | nil => exact Option.some.inj h ▸ hs
  | cons a as ih =>
      obtain ⟨t, ht, hu⟩ := run_cons_some.mp h
      obtain ⟨hQ, hrest⟩ := hR t ht
      exact ih (hstep s a t hs hQ ht) hrest hu

/-! ## Logs -/

theorem filterMap_cons_toList (g : α → Option β) (a : α) (as : List α) :
    (a :: as).filterMap g = (g a).toList ++ as.filterMap g := by
  cases hga : g a with
  | none => exact List.filterMap_cons_none hga
  | some b => exact List.filterMap_cons_some hga

/-- What every step appends to a log, the run appends. -/
theorem run_log {log : σ → List β} {g : α → Option β}
    (hstep : ∀ s a t, step s a = some t → log t = log s ++ (g a).toList) {s u : σ}
    {as : List α} (h : run step s as = some u) : log u = log s ++ as.filterMap g := by
  induction as generalizing s with
  | nil =>
      obtain rfl := Option.some.inj h
      exact (List.append_nil _).symm
  | cons a as ih =>
      obtain ⟨t, ht, hu⟩ := run_cons_some.mp h
      rw [ih hu, hstep s a t ht, List.append_assoc, filterMap_cons_toList]

theorem run_count {n : σ → Nat} {p : α → Bool}
    (hstep : ∀ s a t, step s a = some t → n t = n s + (p a).toNat) {s u : σ} {as : List α}
    (h : run step s as = some u) : n u = n s + as.countP p := by
  induction as generalizing s with
  | nil =>
      obtain rfl := Option.some.inj h
      rfl
  | cons a as ih =>
      obtain ⟨t, ht, hu⟩ := run_cons_some.mp h
      rw [ih hu, hstep s a t ht, List.countP_cons]
      cases p a <;> simp only [Bool.toNat_true, Bool.toNat_false, if_true, if_false,
        Bool.false_eq_true] <;> omega

/-! ## Step properties along a run -/

theorem along_cons {s t : σ} {a : α} (h : step s a = some t) (as : List α) :
    Along step Q s (a :: as) ↔ Q s a t ∧ Along step Q t as := by
  constructor
  · intro hall
    exact hall t h
  · intro hboth t' ht'
    obtain rfl : t = t' := Option.some.inj (h.symm.trans ht')
    exact hboth

/-- What holds along a run holds along the rest of it. -/
theorem along_append_right {s t : σ} {as bs : List α} (hall : Along step Q s (as ++ bs))
    (h : run step s as = some t) : Along step Q t bs := by
  induction as generalizing s with
  | nil => exact Option.some.inj h ▸ hall
  | cons a as ih =>
      obtain ⟨u, hu, ht⟩ := run_cons_some.mp h
      exact ih (hall u hu).2 ht

/-- What every step from a state with the invariant satisfies, holds along the run. -/
theorem along_of_inv (hstep : ∀ s a t, I s → step s a = some t → I t)
    (hQ : ∀ s a t, I s → step s a = some t → Q s a t) {s : σ} (hs : I s) (as : List α) :
    Along step Q s as := by
  induction as generalizing s with
  | nil => trivial
  | cons a as ih =>
      intro t ht
      exact ⟨hQ s a t hs ht, ih (hstep s a t hs ht)⟩

/-- Every state that the run reaches has `P`. -/
theorem forall_reached_iff {P : σ → Prop} {s : σ} {as : List α} :
    (∀ before after, as = before ++ after → ∀ t, run step s before = some t → P t) ↔
      P s ∧ Along step (fun _ _ t => P t) s as := by
  induction as generalizing s with
  | nil =>
      constructor
      · intro hall
        exact ⟨hall [] [] rfl s rfl, trivial⟩
      · rintro ⟨hs, -⟩ before after hsplit t ht
        obtain ⟨rfl, -⟩ := List.append_eq_nil_iff.mp hsplit.symm
        exact Option.some.inj ht ▸ hs
  | cons a as ih =>
      constructor
      · intro hall
        refine ⟨hall [] _ rfl s rfl, fun t ht => ih.mp fun before after hsplit u hu => ?_⟩
        exact hall (a :: before) after (by rw [hsplit]; rfl) u (by rw [run_cons ht, hu])
      · rintro ⟨hs, hall⟩ before after hsplit u hu
        cases before with
        | nil => exact Option.some.inj hu ▸ hs
        | cons b before =>
            obtain ⟨rfl, hrest⟩ := List.cons.inj hsplit
            obtain ⟨t, ht, hu⟩ := run_cons_some.mp hu
            exact ih.mpr (hall t ht) before after hrest u hu

/-- Two step properties that agree on every step agree along every run. -/
theorem along_congr (h : ∀ s a t, step s a = some t → (Q s a t ↔ R s a t)) (s : σ)
    (as : List α) : Along step Q s as ↔ Along step R s as := by
  induction as generalizing s with
  | nil => exact Iff.rfl
  | cons a as ih =>
      exact forall_congr' fun t => imp_congr_right fun ht => and_congr (h s a t ht) (ih t)

/-- They agree along a run if they agree at every step from a state that satisfies an
invariant, and either of them keeps it; `P` is what is known of the actions. -/
theorem along_iff_of_forall_mem {P : α → Prop}
    (hiff : ∀ s a t, I s → P a → step s a = some t → (Q s a t ↔ R s a t))
    (hstep : ∀ s a t, I s → P a → Q s a t → step s a = some t → I t) {s : σ} (hs : I s)
    {as : List α} (hP : ∀ a ∈ as, P a) : Along step Q s as ↔ Along step R s as := by
  induction as generalizing s with
  | nil => exact Iff.rfl
  | cons a as ih =>
      have ha := hP a List.mem_cons_self
      refine forall_congr' fun t => imp_congr_right fun ht => ?_
      have hboth := hiff s a t hs ha ht
      have hrest (hq : Q s a t) : Along step Q t as ↔ Along step R t as :=
        ih (hstep s a t hs ha hq ht) fun b hb => hP b (List.mem_cons_of_mem a hb)
      constructor
      · rintro ⟨hq, hall⟩
        exact ⟨hboth.mp hq, (hrest hq).mp hall⟩
      · rintro ⟨hr, hall⟩
        exact ⟨hboth.mpr hr, (hrest (hboth.mpr hr)).mpr hall⟩

theorem along_iff (hiff : ∀ s a t, I s → step s a = some t → (Q s a t ↔ R s a t))
    (hstep : ∀ s a t, I s → Q s a t → step s a = some t → I t) {s : σ} (hs : I s)
    (as : List α) : Along step Q s as ↔ Along step R s as :=
  along_iff_of_forall_mem (P := fun _ => True) (fun s a t hs _ h => hiff s a t hs h)
    (fun s a t hs _ hq h => hstep s a t hs hq h) hs fun _ _ => trivial

/-- A step property that implies another one at every state with the invariant does so
along the run. -/
theorem along_mono (hstep : ∀ s a t, I s → step s a = some t → I t)
    (himp : ∀ s a t, I s → step s a = some t → R s a t → Q s a t) {s : σ} (hs : I s)
    {as : List α} (hR : Along step R s as) : Along step Q s as := by
  induction as generalizing s with
  | nil => trivial
  | cons a as ih =>
      intro t ht
      obtain ⟨hr, hrest⟩ := hR t ht
      exact ⟨himp s a t hs ht hr, ih (hstep s a t hs ht) hrest⟩

/-- A property that a step keeps unless it breaks it, and never brings back, holds at the
end of a run if it held at the beginning and no step has broken it. -/
theorem run_iff_along {P : σ → Prop} {B : σ → α → Prop}
    (hstep : ∀ s a t, I s → step s a = some t → I t)
    (hiff : ∀ s a t, I s → step s a = some t → (P t ↔ P s ∧ ¬ B s a)) {s u : σ} {as : List α}
    (hs : I s) (h : run step s as = some u) :
    P u ↔ P s ∧ Along step (fun s a _ => ¬ B s a) s as := by
  induction as generalizing s with
  | nil => exact Option.some.inj h ▸ (and_iff_left trivial).symm
  | cons a as ih =>
      obtain ⟨t, ht, hu⟩ := run_cons_some.mp h
      rw [along_cons ht, ih (hstep s a t hs ht) hu, hiff s a t hs ht, and_assoc]

/-- What holds of every action of the list holds along the run. -/
theorem along_of_forall_mem {P : α → Prop} {s : σ} {as : List α} (h : ∀ a ∈ as, P a) :
    Along step (fun _ a _ => P a) s as := by
  induction as generalizing s with
  | nil => trivial
  | cons a as ih =>
      intro t _
      exact ⟨h a List.mem_cons_self, ih fun b hb => h b (List.mem_cons_of_mem a hb)⟩

end

/-! ## Progress -/

section
variable {step : σ → α → Option σ} {I G : σ → Prop} {P : α → Prop}

/-- If short of the goal `G` some step among those allowed by `P` keeps the invariant and
makes the weight smaller, such steps lead to the goal. -/
theorem reaches_of_weight (weight : σ → Nat)
    (hstep : ∀ s, I s → ¬G s → ∃ a t, P a ∧ step s a = some t ∧ I t ∧ weight t < weight s)
    {s : σ} (hs : I s) : ∃ as t, run step s as = some t ∧ (∀ a ∈ as, P a) ∧ I t ∧ G t := by
  induction hw : weight s using Nat.strongRecOn generalizing s with
  | ind n ih =>
      by_cases hgoal : G s
      · exact ⟨[], s, rfl, fun _ ha => (nomatch ha), hs, hgoal⟩
      obtain ⟨a, t, ha, ht, hIt, hlt⟩ := hstep s hs hgoal
      obtain ⟨as, u, hu, has, hIu, hgu⟩ := ih (weight t) (hw ▸ hlt) hIt rfl
      exact ⟨a :: as, u, by rw [run_cons ht, hu], List.forall_mem_cons.mpr ⟨ha, has⟩, hIu, hgu⟩

end

/-! ## Simulation -/

/-- A relation that every step of the first machine maintains by finitely many
steps of the second is maintained by whole runs. -/
theorem run_simulates {step : σ → α → Option σ} {step' : τ → β → Option τ}
    {Rel : σ → τ → Prop} {R : σ → α → σ → Prop}
    (hsim : ∀ s a t x, Rel s x → R s a t → step s a = some t →
      ∃ bs y, run step' x bs = some y ∧ Rel t y)
    {s u : σ} {x : τ} {as : List α} (hx : Rel s x) (hR : Along step R s as)
    (h : run step s as = some u) :
    ∃ bs y, run step' x bs = some y ∧ Rel u y := by
  induction as generalizing s x with
  | nil => exact ⟨[], x, rfl, Option.some.inj h ▸ hx⟩
  | cons a as ih =>
      obtain ⟨t, ht, hu⟩ := run_cons_some.mp h
      obtain ⟨hr, hrest⟩ := hR t ht
      obtain ⟨bs, y, hy, hty⟩ := hsim s a t x hx hr ht
      obtain ⟨cs, z, hz, huz⟩ := ih hty hrest hu
      exact ⟨bs ++ cs, z, run_append.mpr ⟨y, hy, hz⟩, huz⟩

/-- A machine that does the same under other names. -/
theorem run_map {step : σ → α → Option σ} {step' : τ → β → Option τ} {f : σ → τ} {g : α → β}
    (hstep : ∀ s a t, step s a = some t → step' (f s) (g a) = some (f t)) {s u : σ} {as : List α}
    (h : run step s as = some u) : run step' (f s) (as.map g) = some (f u) := by
  induction as generalizing s with
  | nil => exact congrArg _ (congrArg _ (Option.some.inj h))
  | cons a as ih =>
      obtain ⟨t, ht, hu⟩ := run_cons_some.mp h
      rw [List.map_cons, run_cons (hstep s a t ht)]
      exact ih hu

/-- What the actions of a run are for another machine, each in the state that it is taken
in. -/
def shownAlong (step : σ → α → Option σ) (shown : σ → α → List β) : σ → List α → List β
  | _, [] => []
  | s, a :: as =>
      match step s a with
      | some t => shown s a ++ shownAlong step shown t as
      | none => []

section
variable {step : σ → α → Option σ} {step' : τ → β → Option τ} {shown : σ → α → List β}

theorem shownAlong_cons {s t : σ} {a : α} (h : step s a = some t) (as : List α) :
    shownAlong step shown s (a :: as) = shown s a ++ shownAlong step shown t as := by
  simp only [shownAlong, h]

/-- If every step shows as a run from view to view, then so does every run. -/
theorem run_shown {I : σ → Prop} {view : σ → τ} (hI : ∀ s a t, I s → step s a = some t → I t)
    (hshown : ∀ s a t, I s → step s a = some t →
      run step' (view s) (shown s a) = some (view t)) {s u : σ} {as : List α} (hs : I s)
    (h : run step s as = some u) :
    run step' (view s) (shownAlong step shown s as) = some (view u) := by
  induction as generalizing s with
  | nil => exact congrArg _ (congrArg _ (Option.some.inj h))
  | cons a as ih =>
      obtain ⟨t, ht, hu⟩ := run_cons_some.mp h
      rw [shownAlong_cons ht]
      exact run_append.mpr ⟨view t, hshown s a t hs ht, ih (hI s a t hs ht) hu⟩

/-- What is the same for every step shown is the same for the run. -/
theorem filterMap_shownAlong {O : Type*} {f : β → Option O} {g : α → Option O}
    (hshown : ∀ s a, (shown s a).filterMap f = (g a).toList) {s u : σ} {as : List α}
    (h : run step s as = some u) : (shownAlong step shown s as).filterMap f = as.filterMap g := by
  induction as generalizing s with
  | nil => rfl
  | cons a as ih =>
      obtain ⟨t, ht, hu⟩ := run_cons_some.mp h
      rw [shownAlong_cons ht, List.filterMap_append, hshown, ih hu, filterMap_cons_toList]

end

end Machine
