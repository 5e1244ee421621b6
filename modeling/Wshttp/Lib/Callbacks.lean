/-
# `Wshttp.Lib.Callbacks` — calls that go on until one of them refuses

A library hands what it reads to callbacks, one after the other, and gives up at the
first that answers anything but success.

    callUntil call stops cs s    the calls made, with their answers, and the state
    prefixUntil refuses as cs    the calls up to the first that is refused after `as`

The second knows nothing of states: it is told, for a call and all the calls before it,
whether the call is refused.  `callUntil_predicted` says when it is what happens.
-/
import Mathlib.Data.List.Basic
import Mathlib.Tactic.Common

namespace Callbacks

variable {C R σ : Type*}

/-- The calls in order, up to and with the first whose answer stops. -/
def callUntil (call : C → σ → R × σ) (stops : R → Bool) : List C → σ → List (C × R) × σ
  | [], s => ([], s)
  | c :: cs, s =>
      let r := call c s
      if stops r.1 then ([(c, r.1)], r.2)
      else
        let rest := callUntil call stops cs r.2
        ((c, r.1) :: rest.1, rest.2)

/-- The calls up to and with the first that is refused after the ones before it. -/
def prefixUntil (refuses : List C → C → Bool) : List C → List C → List C
  | _, [] => []
  | before, c :: cs =>
      c :: if refuses before c then [] else prefixUntil refuses (before ++ [c]) cs

/-- One of the calls is refused. -/
def anyRefused (refuses : List C → C → Bool) : List C → List C → Bool
  | _, [] => false
  | before, c :: cs => refuses before c || anyRefused refuses (before ++ [c]) cs

section
variable {call : C → σ → R × σ} {stops : R → Bool} {refuses : List C → C → Bool}

theorem callUntil_stop {c : C} {cs : List C} {s : σ} (h : stops (call c s).1 = true) :
    callUntil call stops (c :: cs) s = ([(c, (call c s).1)], (call c s).2) := by
  simp [callUntil, h]

theorem callUntil_go {c : C} {cs : List C} {s : σ} (h : stops (call c s).1 = false) :
    callUntil call stops (c :: cs) s =
      ((c, (call c s).1) :: (callUntil call stops cs (call c s).2).1,
        (callUntil call stops cs (call c s).2).2) := by
  simp [callUntil, h]

/-- If nothing is refused, every call is made. -/
theorem prefixUntil_of_not_anyRefused {before cs : List C}
    (h : anyRefused refuses before cs = false) : prefixUntil refuses before cs = cs := by
  induction cs generalizing before with
  | nil => rfl
  | cons c cs ih =>
      obtain ⟨hc, hcs⟩ := Bool.or_eq_false_iff.mp h
      rw [prefixUntil, hc, if_neg Bool.false_ne_true, ih hcs]

/-- A state that follows the history of calls answers as predicted, as long as the
history is one that can occur. -/
structure Predicts (call : C → σ → R × σ) (stops : R → Bool) (refuses : List C → C → Bool)
    (occurs : List C → Prop) (Follows : List C → σ → Prop) (Fine : R → Prop) : Prop where
  earlier : ∀ {as bs}, occurs (as ++ bs) → occurs as
  refused : ∀ {as s c}, Follows as s → occurs (as ++ [c]) → stops (call c s).1 = refuses as c
  fine : ∀ {as s c}, Follows as s → occurs (as ++ [c]) → Fine (call c s).1
  follows : ∀ {as s c}, Follows as s → Follows (as ++ [c]) (call c s).2

/-- What is predicted, happens: the calls made, whether one of them stopped, and what
the state then follows. -/
theorem callUntil_predicted {occurs : List C → Prop} {Follows : List C → σ → Prop}
    {Fine : R → Prop} (h : Predicts call stops refuses occurs Follows Fine) {before cs : List C}
    {s : σ} (hs : Follows before s) (hcs : occurs (before ++ cs)) :
    (callUntil call stops cs s).1.map Prod.fst = prefixUntil refuses before cs ∧
      (callUntil call stops cs s).1.any (fun r => stops r.2) = anyRefused refuses before cs ∧
      (∀ r ∈ (callUntil call stops cs s).1, Fine r.2) ∧
      Follows (before ++ prefixUntil refuses before cs) (callUntil call stops cs s).2 := by
  induction cs generalizing before s with
  | nil =>
      refine ⟨rfl, rfl, fun _ hr => absurd hr List.not_mem_nil, ?_⟩
      rw [prefixUntil, List.append_nil]
      exact hs
  | cons c cs ih =>
      rw [List.append_cons] at hcs
      have hone : occurs (before ++ [c]) := h.earlier hcs
      have hstop := h.refused hs hone
      have hfine := h.fine hs hone
      have hnext := h.follows (c := c) hs
      cases href : refuses before c with
      | true =>
          rw [callUntil_stop (hstop.trans href), prefixUntil, href, if_pos rfl]
          refine ⟨rfl, ?_, ?_, hnext⟩
          · simp [anyRefused, href, hstop]
          · intro r hr
            rw [List.mem_singleton.mp hr]
            exact hfine
      | false =>
          obtain ⟨hmade, hany, hall, hend⟩ := ih hnext hcs
          rw [callUntil_go (hstop.trans href), prefixUntil, href, if_neg Bool.false_ne_true]
          refine ⟨congrArg _ hmade, ?_, ?_, ?_⟩
          · rw [List.any_cons, hstop, href, hany, anyRefused, href]
          · intro r hr
            rcases List.mem_cons.mp hr with rfl | hr
            · exact hfine
            · exact hall r hr
          · rw [List.append_cons]
            exact hend

end

end Callbacks
