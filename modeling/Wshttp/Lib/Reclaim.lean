/-
# `Wshttp.Lib.Reclaim` — jobs that use objects, and jobs that delete them

Objects are owned by counted references, and jobs stand in a queue and are run one after
the other.  Some jobs use objects, without owning them; others delete an object.  When the
last reference to an object goes, the object is deleted there and then, or a job that
deletes it is put into the queue.

    Safe live jobs    no job of the queue uses an object that is gone by its turn
    Store             the references, the queue, and what has been deleted

**Proved here.**  An object is deleted once, and not before its last reference is gone
(`accounted_step`).  A store that is sound stays so, except for two kinds of steps: an object
is deleted past a job that is to use it, or a job is put into the queue that is to use an
object without references (`sound_step`).
-/
import Wshttp.Lib.Run
import Mathlib.Data.List.Perm.Basic
import Mathlib.Logic.Function.Basic

namespace Reclaim

variable {Obj : Type*}

inductive PtrJob (Obj : Type*) where
  | delete (x : Obj)
  | uses (xs : List Obj)

/-- Run in this order, the jobs only use what is there. -/
def Safe : (Obj → Prop) → List (PtrJob Obj) → Prop
  | _, [] => True
  | live, .delete x :: jobs => Safe (fun y => live y ∧ y ≠ x) jobs
  | live, .uses xs :: jobs => (∀ x ∈ xs, live x) ∧ Safe live jobs

section
variable {live : Obj → Prop} {jobs : List (PtrJob Obj)} {x : Obj} {xs : List Obj}

/-- A job that deletes an object can wait behind all others. -/
theorem safe_concat_delete : Safe live (jobs ++ [.delete x]) ↔ Safe live jobs := by
  induction jobs generalizing live with
  | nil => exact Iff.rfl
  | cons job jobs ih =>
      cases job with
      | delete y => exact ih
      | uses ys => exact and_congr_right fun _ => ih

/-- What the last job uses has to be there now, and not to be deleted before its turn. -/
theorem safe_concat_uses :
    Safe live (jobs ++ [.uses xs]) ↔ Safe live jobs ∧ ∀ x ∈ xs, live x ∧ .delete x ∉ jobs := by
  induction jobs generalizing live with
  | nil =>
      have hempty : ∀ x : Obj, (PtrJob.delete x ∉ ([] : List (PtrJob Obj))) := by
        intro x
        exact List.not_mem_nil
      simp only [List.nil_append, Safe, and_true, true_and, hempty, not_false_eq_true]
  | cons job jobs ih =>
      cases job with
      | delete y =>
          refine ih.trans (and_congr_right fun _ => forall₂_congr fun x _ => ?_)
          rw [List.mem_cons, not_or, PtrJob.delete.injEq, and_assoc]
      | uses ys =>
          refine (and_congr_right fun _ => ih).trans (and_assoc.symm.trans ?_)
          refine and_congr_right fun _ => forall₂_congr fun x _ => ?_
          have hother : PtrJob.delete x ≠ .uses ys := fun h => by cases h
          rw [List.mem_cons, not_or, and_iff_right hother]

/-- An object deleted now may not be used by any of the jobs. -/
theorem safe_without : Safe (fun y => live y ∧ y ≠ x) jobs ↔
    Safe live jobs ∧ ∀ xs, .uses xs ∈ jobs → x ∉ xs := by
  induction jobs generalizing live with
  | nil => exact (and_iff_left fun xs hmem => absurd hmem List.not_mem_nil).symm
  | cons job jobs ih =>
      cases job with
      | delete y =>
          have hswap : (fun z => (live z ∧ z ≠ x) ∧ z ≠ y) = fun z => (live z ∧ z ≠ y) ∧ z ≠ x := by
            funext z
            exact propext and_right_comm
          rw [Safe, hswap, ih]
          refine and_congr_right fun _ => forall_congr' fun xs => imp_congr_left ?_
          have hother : PtrJob.uses xs ≠ .delete y := fun h => by cases h
          rw [List.mem_cons, or_iff_right hother]
      | uses ys =>
          rw [Safe, Safe, ih]
          constructor
          · rintro ⟨hhead, hjobs, htail⟩
            refine ⟨⟨fun z hz => (hhead z hz).1, hjobs⟩, fun xs hmem => ?_⟩
            rcases List.mem_cons.mp hmem with heq | hrest
            · obtain rfl := PtrJob.uses.inj heq
              exact fun hx => (hhead x hx).2 rfl
            · exact htail xs hrest
          · rintro ⟨⟨hhead, hjobs⟩, hnone⟩
            refine ⟨fun z hz => ⟨hhead z hz, ?_⟩, hjobs, fun xs hmem =>
              hnone xs (List.mem_cons_of_mem _ hmem)⟩
            rintro rfl
            exact hnone ys List.mem_cons_self hz

end

/-! ## References -/

/-- The object that a job deletes. -/
def PtrJob.deletes : PtrJob Obj → Option Obj
  | .delete x => some x
  | .uses _ => none

theorem delete_mem_iff {jobs : List (PtrJob Obj)} {x : Obj} :
    .delete x ∈ jobs ↔ x ∈ jobs.filterMap PtrJob.deletes := by
  rw [List.mem_filterMap]
  constructor
  · intro hmem
    exact ⟨_, hmem, rfl⟩
  · rintro ⟨job, hmem, hjob⟩
    cases job with
    | delete y =>
        obtain rfl := Option.some.inj hjob
        exact hmem
    | uses ys => cases hjob

/-- Objects are numbered in the order in which they are made. -/
structure Store where
  pending : List (PtrJob Nat)
  next : Nat
  refs : Nat → Nat
  /-- history -/
  deleted : List Nat
  /-- history: a job has used an object that was deleted -/
  faulted : Bool

inductive Act where
  | make
  | copy (x : Nat)
  /-- a reference goes; if it is the last one, `later` asks for a job -/
  | drop (x : Nat) (later : Bool)
  | use (xs : List Nat)
  /-- the first job of the queue is run -/
  | take

namespace Store

def empty : Store := ⟨[], 0, fun _ => 0, [], false⟩

/-- The job is run. -/
def runJob (job : PtrJob Nat) (s : Store) : Store :=
  match job with
  | .delete x => { s with deleted := s.deleted ++ [x] }
  | .uses xs => { s with faulted := s.faulted || xs.any (· ∈ s.deleted) }

def step (s : Store) : Act → Option Store
  | .make => some { s with next := s.next + 1, refs := Function.update s.refs s.next 1 }
  | .copy x =>
      if 0 < s.refs x then some { s with refs := Function.update s.refs x (s.refs x + 1) } else none
  | .drop x later =>
      if s.refs x = 0 then none
      else if s.refs x = 1 then
        let s := { s with refs := Function.update s.refs x 0 }
        some (if later then { s with pending := s.pending ++ [.delete x] }
          else { s with deleted := s.deleted ++ [x] })
      else some { s with refs := Function.update s.refs x (s.refs x - 1) }
  | .use xs =>
      if ∀ x ∈ xs, x < s.next then some { s with pending := s.pending ++ [.uses xs] } else none
  | .take =>
      match s.pending with
      | [] => none
      | job :: rest => some ({ s with pending := rest }.runJob job)

/-- What `step` does, case by case. -/
inductive Stepped (s : Store) : Act → Store → Prop
  | make : Stepped s .make { s with next := s.next + 1, refs := Function.update s.refs s.next 1 }
  | copy {x : Nat} : 0 < s.refs x →
      Stepped s (.copy x) { s with refs := Function.update s.refs x (s.refs x + 1) }
  | dropOne {x : Nat} {later : Bool} : 1 < s.refs x →
      Stepped s (.drop x later) { s with refs := Function.update s.refs x (s.refs x - 1) }
  | dropLater {x : Nat} : s.refs x = 1 →
      Stepped s (.drop x true)
        { s with refs := Function.update s.refs x 0, pending := s.pending ++ [.delete x] }
  | dropNow {x : Nat} : s.refs x = 1 →
      Stepped s (.drop x false)
        { s with refs := Function.update s.refs x 0, deleted := s.deleted ++ [x] }
  | use {xs : List Nat} : (∀ x ∈ xs, x < s.next) →
      Stepped s (.use xs) { s with pending := s.pending ++ [.uses xs] }
  | take {job : PtrJob Nat} {rest : List (PtrJob Nat)} : s.pending = job :: rest →
      Stepped s .take ({ s with pending := rest }.runJob job)

section
variable {s t : Store} {a : Act}

theorem stepped (h : s.step a = some t) : Stepped s a t := by
  cases a with
  | make => exact Option.some.inj h ▸ .make
  | copy x =>
      simp only [step] at h
      split at h
      · next hpos => exact Option.some.inj h ▸ .copy hpos
      · cases h
  | drop x later =>
      simp only [step] at h
      split at h
      · cases h
      next hne =>
      split at h
      · next hone =>
        cases later with
        | true => exact Option.some.inj h ▸ .dropLater hone
        | false => exact Option.some.inj h ▸ .dropNow hone
      · next hmore => exact Option.some.inj h ▸ .dropOne (by omega)
  | use xs =>
      simp only [step] at h
      split at h
      · next hmade => exact Option.some.inj h ▸ .use hmade
      · cases h
  | take =>
      simp only [step] at h
      split at h
      · cases h
      next job rest hpending => exact Option.some.inj h ▸ .take hpending

/-! ## Each object is deleted once -/

/-- The objects that have been deleted, or are about to be. -/
def condemned (s : Store) : List Nat := s.deleted ++ s.pending.filterMap PtrJob.deletes

/-- They are those without references, each of them once. -/
structure Accounted (s : Store) : Prop where
  once : s.condemned.Nodup
  exact : ∀ x, x ∈ s.condemned ↔ x < s.next ∧ s.refs x = 0
  fresh : ∀ x, s.next ≤ x → s.refs x = 0

theorem accounted_empty : Accounted .empty where
  once := List.nodup_nil
  exact := fun x => iff_of_false List.not_mem_nil fun h => absurd h.1 (Nat.not_lt_zero x)
  fresh := fun _ _ => rfl

/-- The last reference goes, in either way. -/
theorem Accounted.condemn {x : Nat} (hs : s.Accounted) (hone : s.refs x = 1)
    (hperm : t.condemned.Perm (x :: s.condemned)) (hnext : t.next = s.next)
    (hrefs : t.refs = Function.update s.refs x 0) : t.Accounted := by
  have hx : x ∉ s.condemned := by
    rw [hs.exact]
    rintro ⟨-, hzero⟩
    omega
  have hlt : x < s.next := by
    by_contra hge
    have hzero := hs.fresh x (Nat.le_of_not_lt hge)
    omega
  refine ⟨hperm.nodup_iff.mpr (List.nodup_cons.mpr ⟨hx, hs.once⟩), fun y => ?_, fun y hy => ?_⟩
  · rw [hperm.mem_iff, List.mem_cons, hs.exact, hnext, hrefs]
    by_cases hyx : y = x
    · subst hyx
      rw [Function.update_self]
      exact iff_of_true (.inl rfl) ⟨hlt, rfl⟩
    · rw [Function.update_of_ne hyx, or_iff_right hyx]
  · rw [hrefs]
    by_cases hyx : y = x
    · rw [hyx, Function.update_self]
    · rw [Function.update_of_ne hyx]
      exact hs.fresh y (hnext ▸ hy)

/-- The count of an object that has references stays above zero. -/
theorem Accounted.recount {x n : Nat} (hs : s.Accounted) (hpos : 0 < s.refs x) (hn : 0 < n)
    (hcondemned : t.condemned = s.condemned) (hnext : t.next = s.next)
    (hrefs : t.refs = Function.update s.refs x n) : t.Accounted := by
  have hlt : x < s.next := by
    by_contra hge
    have hzero := hs.fresh x (Nat.le_of_not_lt hge)
    omega
  have hzero : ∀ y, t.refs y = 0 ↔ s.refs y = 0 := by
    intro y
    rw [hrefs]
    by_cases hyx : y = x
    · rw [hyx, Function.update_self]
      omega
    · rw [Function.update_of_ne hyx]
  refine ⟨hcondemned ▸ hs.once, fun y => ?_, fun y hy => ?_⟩
  · rw [hcondemned, hs.exact, hnext, hzero]
  · rw [hzero]
    exact hs.fresh y (hnext ▸ hy)

theorem Accounted.congr (hs : s.Accounted) (hcondemned : t.condemned = s.condemned)
    (hnext : t.next = s.next) (hrefs : t.refs = s.refs) : t.Accounted where
  once := hcondemned ▸ hs.once
  exact := by
    rw [hcondemned, hnext, hrefs]
    exact hs.exact
  fresh := by
    rw [hnext, hrefs]
    exact hs.fresh

theorem Accounted.make (hs : s.Accounted) : Accounted
    { s with next := s.next + 1, refs := Function.update s.refs s.next 1 } := by
  refine ⟨hs.once, fun x => ?_, fun x hx => ?_⟩
  · show x ∈ s.condemned ↔ x < s.next + 1 ∧ Function.update s.refs s.next 1 x = 0
    rw [hs.exact]
    by_cases hx : x = s.next
    · subst hx
      rw [Function.update_self]
      omega
    · rw [Function.update_of_ne hx]
      exact and_congr_left fun _ => by omega
  · have hne : x ≠ s.next := by
      intro heq
      change s.next + 1 ≤ x at hx
      omega
    show Function.update s.refs s.next 1 x = 0
    rw [Function.update_of_ne hne]
    exact hs.fresh x (Nat.le_of_succ_le hx)

theorem accounted_step (hs : s.Accounted) (h : s.step a = some t) : t.Accounted := by
  cases stepped h with
  | make => exact hs.make
  | copy hpos => exact hs.recount hpos (Nat.succ_pos _) rfl rfl rfl
  | dropOne hmore => exact hs.recount (Nat.lt_of_succ_lt hmore) (by omega) rfl rfl rfl
  | dropLater hone =>
      refine hs.condemn hone ?_ rfl rfl
      rw [condemned, condemned, List.filterMap_append, ← List.append_assoc]
      exact List.perm_append_singleton _ _
  | dropNow hone =>
      refine hs.condemn hone ?_ rfl rfl
      rw [condemned, condemned, List.append_assoc]
      exact List.perm_middle
  | use _ =>
      refine hs.congr ?_ rfl rfl
      rw [condemned, condemned, List.filterMap_append]
      exact congrArg _ (List.append_nil _)
  | @take job rest hpending =>
      cases job with
      | delete x =>
          refine hs.congr ?_ rfl rfl
          rw [condemned, condemned, hpending]
          exact List.append_assoc _ _ _
      | uses xs =>
          refine hs.congr ?_ rfl rfl
          rw [condemned, condemned, hpending]
          rfl

/-! ## When a job finds what it uses -/

/-- No job has used an object that was gone, and none in the queue is going to. -/
def Sound (s : Store) : Prop := s.faulted = false ∧ Safe (· ∉ s.deleted) s.pending

/-- An object is deleted past a job that is to use it; or a job is to use an object that
nobody owns. -/
def Breaks (s : Store) : Act → Prop
  | .drop x later => s.refs x = 1 ∧ later = false ∧ ∃ xs, .uses xs ∈ s.pending ∧ x ∈ xs
  | .use xs => ∃ x ∈ xs, s.refs x = 0
  | _ => False

/-- An object that is there, and is not going to be deleted, has a reference. -/
theorem Accounted.kept_iff {x : Nat} (hs : s.Accounted) (hx : x < s.next) :
    x ∉ s.deleted ∧ .delete x ∉ s.pending ↔ s.refs x ≠ 0 := by
  rw [delete_mem_iff, ← not_or, ← List.mem_append]
  refine not_congr ((hs.exact x).trans ?_)
  exact and_iff_right hx

theorem sound_step (hs : s.Accounted) (h : s.step a = some t) :
    t.Sound ↔ s.Sound ∧ ¬ s.Breaks a := by
  cases stepped h with
  | make => exact (and_iff_left not_false).symm
  | copy _ => exact (and_iff_left not_false).symm
  | dropOne hmore =>
      refine (and_iff_left ?_).symm
      rintro ⟨hone, -⟩
      omega
  | @dropLater x _ =>
      have hnot : ¬ s.Breaks (.drop x true) := by
        rintro ⟨-, hlater, -⟩
        cases hlater
      rw [and_iff_left hnot]
      exact and_congr_right fun _ => safe_concat_delete
  | @dropNow x hone =>
      have hlive : (· ∉ s.deleted ++ [x]) = fun y => y ∉ s.deleted ∧ y ≠ x := by
        funext y
        rw [List.mem_append, List.mem_singleton, not_or]
      rw [Sound, Sound, hlive, safe_without, and_assoc]
      refine and_congr_right fun _ => and_congr_right fun _ => ?_
      rw [Breaks, and_iff_right hone, and_iff_right rfl, not_exists]
      exact forall_congr' fun xs => not_and.symm
  | @use xs hmade =>
      rw [Sound, Sound, safe_concat_uses, and_assoc]
      refine and_congr_right fun _ => and_congr_right fun _ => ?_
      rw [Breaks, not_exists]
      refine forall_congr' fun x => ?_
      rw [not_and]
      exact forall_congr' fun hx => hs.kept_iff (hmade x hx)
  | @take job rest hpending =>
      have hnot : ¬ s.Breaks .take := not_false
      rw [and_iff_left hnot, Sound, Sound, hpending]
      cases job with
      | delete x =>
          have hlive : (· ∉ s.deleted ++ [x]) = fun y => y ∉ s.deleted ∧ y ≠ x := by
            funext y
            rw [List.mem_append, List.mem_singleton, not_or]
          rw [runJob, hlive, Safe]
      | uses xs =>
          rw [runJob, Safe, Bool.or_eq_false_iff, and_assoc]
          refine and_congr_right fun _ => and_congr_left fun _ => ?_
          rw [List.any_eq_false]
          simp

end

end Store

end Reclaim
