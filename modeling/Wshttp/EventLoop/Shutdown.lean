/-
# `Wshttp.EventLoop.Shutdown` — what `~event_loop` leaves of the watchers

The destructor stops the thread, and then goes through all lists of `tickers` and does to
each watcher it can lock what `stop_tickers` does to those of one id.  There is no loop
thread any more: where `stop_tickers` destroys a watcher whose callback was its only owner,
the deleter now queues the deletion, in a queue that nobody runs.

| a watcher that                                  | afterwards                        |
| :---------------------------------------------- | :-------------------------------- |
| has an owner besides its callback               | silent, and outlives its loop     |
| is owned by its callback only (`call_later`)    | silent, and never deleted         |
| has no owner (its deletion was queued)          | never deleted                     |

**Proved here.**  After the destructor no watcher that could be locked is armed or runs a
task again, no watcher has been deleted, and those that are leaked are those of the last
two lines (`destroyed_loop`).
-/
import Wshttp.EventLoop.Tickers

namespace Wshttp.EventLoop

open Machine

variable {Task : Type}

/-- `tick->f = nullptr`, `tick->stop()`, and the end of `tick`. -/
def Ticker.hush (t : Ticker Task) : Ticker Task :=
  { t with
    watcher := ({ t.watcher with f := .null } : EvWatcher Task).stop.2
    refs := t.refs - t.selfOwned.toNat
    selfOwned := false }

namespace Tickers

/-- One turn of the loop over a list.  `loop_deleter` is called on another thread than the
loop's, and does not wait. -/
def lockAndHush (s : Tickers Task) (p : Nat) : Tickers Task :=
  match s.heap p with
  | some t =>
      if t.refs = 0 then s
      else
        { s.modify p (fun t => some t.hush) with
          deletions := if t.hush.refs = 0 then s.deletions ++ [p] else s.deletions }
  | none => s

/-- `~event_loop`, after `stop_thread`; `ids` are the keys of `tickers`, in the order in which
the map gives them. -/
def destroyLoop (ids : List CallerId) (s : Tickers Task) : Tickers Task :=
  ids.foldl (fun s id => (s.tickers id).foldl lockAndHush s) s

/-- What the destructor has made of the watchers. -/
structure Destroyed (s s' : Tickers Task) : Prop where
  silenced : ∀ p t, s.Live p t → ∃ t', s'.heap p = some t' ∧ t'.watcher.f = .null ∧
    t'.watcher.armed = none
  silent : ∀ p t, s.Live p t → ∀ evs,
    Along step (fun s e _ => ∀ f, s.called e ≠ some (p, f)) s' evs
  kept : ∀ p, (s'.heap p).isSome = (s.heap p).isSome
  leaked : ∀ p, (∃ t', s'.heap p = some t' ∧ t'.refs = 0) ↔
    ∃ t, s.heap p = some t ∧ t.owned = false
  queued : ∀ p, p ∈ s'.deletions ↔ p ∈ s.deletions ∨ ∃ t, s.Live p t ∧ t.owned = false

/-! ## One watcher -/

section
variable {s s' : Tickers Task} {p q : Nat} {t : Ticker Task}

/-- What becomes of a watcher that is listed. -/
def hushed (t : Ticker Task) : Ticker Task := if t.refs = 0 then t else t.hush

theorem hush_stop (w : EvWatcher Task) :
    ({ ({ w with f := .null } : EvWatcher Task).stop.2 with f := .null } : EvWatcher Task).stop.2 =
      ({ w with f := .null } : EvWatcher Task).stop.2 := by
  obtain ⟨isRunning, armed, interval, f⟩ := w
  cases isRunning <;> rfl

/-- A second turn changes nothing. -/
theorem hushed_hushed (t : Ticker Task) : hushed (hushed t) = hushed t := by
  by_cases hrefs : t.refs = 0
  · rw [hushed, hushed, if_pos hrefs, if_pos hrefs]
  · have honce : hushed t = t.hush := if_neg hrefs
    rw [honce, hushed]
    split
    · rfl
    · rw [Ticker.hush, Ticker.hush, hush_stop]
      rfl

theorem hush_refs (t : Ticker Task) : t.hush.refs = 0 ↔ t.owned = false := by
  have hself := Bool.toNat_le t.selfOwned
  rw [Ticker.owned, decide_eq_false_iff_not]
  show t.refs - t.selfOwned.toNat = 0 ↔ _
  omega

theorem hushed_refs (t : Ticker Task) : (hushed t).refs = 0 ↔ t.owned = false := by
  by_cases hrefs : t.refs = 0
  · rw [hushed, if_pos hrefs]
    refine iff_of_true hrefs ?_
    rw [Ticker.owned, decide_eq_false_iff_not, hrefs]
    exact Nat.not_lt_zero _
  · rw [hushed, if_neg hrefs]
    exact hush_refs t

/-! ## All watchers -/

theorem heap_lockAndHush (s : Tickers Task) (p q : Nat) :
    (s.lockAndHush p).heap q = if q = p then (s.heap q).map hushed else s.heap q := by
  unfold lockAndHush
  rcases eq_or_ne q p with rfl | hne
  · rw [if_pos rfl]
    split
    · next t ht =>
      split
      · next hrefs => rw [ht, Option.map_some, hushed, if_pos hrefs]
      · next hrefs =>
        have hself := @heap_modify_self Task s q fun t => some t.hush
        rw [ht] at hself ⊢
        rw [Option.map_some, hushed, if_neg hrefs]
        exact hself
    · next hnone => rw [hnone, Option.map_none]
  · rw [if_neg hne]
    split
    · split
      · rfl
      · exact heap_modify_ne hne _
    · rfl

theorem tickers_lockAndHush (s : Tickers Task) (p : Nat) :
    (s.lockAndHush p).tickers = s.tickers := by
  unfold lockAndHush
  split
  · split <;> rfl
  · rfl

theorem next_lockAndHush (s : Tickers Task) (p : Nat) : (s.lockAndHush p).next = s.next := by
  unfold lockAndHush
  split
  · split <;> rfl
  · rfl

theorem deletions_lockAndHush (s : Tickers Task) (p q : Nat) :
    q ∈ (s.lockAndHush p).deletions ↔
      q ∈ s.deletions ∨ q = p ∧ ∃ t, s.Live q t ∧ t.owned = false := by
  have hsame {u : Tickers Task} (hu : u.deletions = s.deletions)
      (hno : ¬ ∃ t, s.Live p t ∧ t.owned = false) :
      q ∈ u.deletions ↔ q ∈ s.deletions ∨ q = p ∧ ∃ t, s.Live q t ∧ t.owned = false := by
    rw [hu]
    refine (or_iff_left ?_).symm
    rintro ⟨rfl, hlive⟩
    exact hno hlive
  unfold lockAndHush
  split
  · next t ht =>
    split
    · next hrefs =>
      refine hsame rfl ?_
      rintro ⟨u, hlive, -⟩
      obtain rfl := Option.some.inj (ht.symm.trans hlive.1)
      exact hlive.2 hrefs
    next hrefs =>
    by_cases howned : t.hush.refs = 0
    · simp only [if_pos howned, List.mem_append, List.mem_singleton]
      refine or_congr_right ⟨?_, fun h => h.1⟩
      rintro rfl
      exact ⟨rfl, t, ⟨ht, hrefs⟩, (hush_refs t).mp howned⟩
    · refine hsame (if_neg howned) ?_
      rintro ⟨u, hlive, hu⟩
      obtain rfl := Option.some.inj (ht.symm.trans hlive.1)
      exact howned ((hush_refs _).mpr hu)
  · next hnone =>
    refine hsame rfl ?_
    rintro ⟨u, hlive, -⟩
    cases hnone.symm.trans hlive.1

theorem tickers_hushAll (l : List Nat) : (l.foldl lockAndHush s).tickers = s.tickers := by
  induction l generalizing s with
  | nil => rfl
  | cons p l ih => rw [List.foldl_cons, ih, tickers_lockAndHush]

theorem next_hushAll (l : List Nat) : (l.foldl lockAndHush s).next = s.next := by
  induction l generalizing s with
  | nil => rfl
  | cons p l ih => rw [List.foldl_cons, ih, next_lockAndHush]

theorem heap_hushAll (l : List Nat) (q : Nat) :
    (l.foldl lockAndHush s).heap q = if q ∈ l then (s.heap q).map hushed else s.heap q := by
  induction l generalizing s with
  | nil => rfl
  | cons p l ih =>
      rw [List.foldl_cons, ih, heap_lockAndHush]
      by_cases hqp : q = p
      · subst hqp
        rw [if_pos rfl, if_pos List.mem_cons_self, Option.map_map]
        have hfun : (hushed ∘ hushed : Ticker Task → Ticker Task) = hushed := funext hushed_hushed
        rw [hfun, ite_self]
      · rw [if_neg hqp]
        exact if_congr (by rw [List.mem_cons, or_iff_right hqp]) rfl rfl

/-- A watcher that has had its turn has an owner, or none at all. -/
theorem live_lockAndHush (s : Tickers Task) (p q : Nat) :
    (∃ t, (s.lockAndHush p).Live q t ∧ t.owned = false) ↔
      q ≠ p ∧ ∃ t, s.Live q t ∧ t.owned = false := by
  rcases eq_or_ne q p with rfl | hne
  · refine iff_of_false ?_ fun h => h.1 rfl
    rintro ⟨t', ⟨ht', hrefs⟩, howned⟩
    rw [heap_lockAndHush, if_pos rfl] at ht'
    obtain ⟨t, -, rfl⟩ := Option.map_eq_some_iff.mp ht'
    have hagain := hushed_refs (hushed t)
    rw [hushed_hushed] at hagain
    exact hrefs (hagain.mpr howned)
  · have hheap := heap_lockAndHush s p q
    rw [if_neg hne] at hheap
    rw [and_iff_right hne]
    simp only [Live, hheap]

theorem deletions_hushAll (l : List Nat) (q : Nat) :
    q ∈ (l.foldl lockAndHush s).deletions ↔
      q ∈ s.deletions ∨ q ∈ l ∧ ∃ t, s.Live q t ∧ t.owned = false := by
  induction l generalizing s with
  | nil => exact (or_iff_left fun h => List.not_mem_nil h.1).symm
  | cons p l ih =>
      rw [List.foldl_cons, ih, deletions_lockAndHush, live_lockAndHush, List.mem_cons, or_assoc]
      refine or_congr_right ?_
      by_cases hqp : q = p
      · simp [hqp]
      · simp [hqp]

/-- The lists stay as they are while the loops go through them. -/
theorem destroyLoop_eq (ids : List CallerId) (s : Tickers Task) :
    s.destroyLoop ids = (ids.flatMap s.tickers).foldl lockAndHush s := by
  have hmany : ∀ (ids : List CallerId) (u : Tickers Task), u.tickers = s.tickers →
      ids.foldl (fun s id => (s.tickers id).foldl lockAndHush s) u =
        (ids.flatMap s.tickers).foldl lockAndHush u := by
    intro ids
    induction ids with
    | nil =>
        intro u _
        rfl
    | cons id ids ih =>
        intro u hu
        rw [List.foldl_cons, List.flatMap_cons, List.foldl_append, ← hu, ih]
        · rw [hu]
        · rw [tickers_hushAll, hu]
  exact hmany ids s rfl

/-! ## The destructor -/

theorem Good.destroyed (hs : s.Good) {ids : List CallerId}
    (hids : ∀ id, s.tickers id ≠ [] → id ∈ ids) : Destroyed s (s.destroyLoop ids) := by
  have hlisted {p : Nat} {t : Ticker Task} (hlive : s.Live p t) : p ∈ ids.flatMap s.tickers := by
    have hmem : p ∈ s.tickers t.id := by
      refine List.count_pos_iff.mp ?_
      rw [(hs.registered p t hlive).1]
      exact Nat.one_pos
    exact List.mem_flatMap.mpr ⟨t.id, hids _ (List.ne_nil_of_mem hmem), hmem⟩
  rw [destroyLoop_eq]
  -- what is not listed has no owner, and would be left as it is anyway
  have hheap (p : Nat) :
      ((ids.flatMap s.tickers).foldl lockAndHush s).heap p = (s.heap p).map hushed := by
    rw [heap_hushAll]
    split
    · rfl
    next hmem =>
    rcases hp : s.heap p with _ | t
    · rfl
    · have hrefs : t.refs = 0 := by
        by_contra hrefs
        exact hmem (hlisted ⟨hp, hrefs⟩)
      rw [Option.map_some, hushed, if_pos hrefs]
  have hsilenced {p : Nat} {t : Ticker Task} (hlive : s.Live p t) : ∃ t',
      ((ids.flatMap s.tickers).foldl lockAndHush s).heap p = some t' ∧ t'.watcher.f = .null ∧
        t'.watcher.armed = none := by
    refine ⟨t.hush, ?_, EvWatcher.stop_f, ?_⟩
    · rw [hheap, hlive.1, Option.map_some, hushed, if_neg hlive.2]
    · exact EvWatcher.RunsIfArmed.stop (hs.runs p t hlive.1)
  refine ⟨fun p t => hsilenced, fun p t hlive evs => ?_, fun p => ?_, fun p => ?_, fun p => ?_⟩
  · obtain ⟨t', ht', hnull, -⟩ := hsilenced hlive
    have hsilent : ((ids.flatMap s.tickers).foldl lockAndHush s).Silent p := by
      refine ⟨?_, fun u hu => ?_⟩
      · rw [next_hushAll]
        exact hs.made p t hlive.1
      · obtain rfl := Option.some.inj (ht'.symm.trans hu)
        exact hnull
    exact along_of_inv (I := Silent p) (Q := fun s e _ => ∀ f, s.called e ≠ some (p, f))
      (fun _ _ _ hsilent h => hsilent.step h) (fun _ e _ hsilent _ => hsilent.called e) hsilent evs
  · rw [hheap, Option.isSome_map]
  · simp only [hheap, Option.map_eq_some_iff]
    constructor
    · rintro ⟨_, ⟨t, ht, rfl⟩, hrefs⟩
      exact ⟨t, ht, (hushed_refs t).mp hrefs⟩
    · rintro ⟨t, ht, howned⟩
      exact ⟨hushed t, ⟨t, ht, rfl⟩, (hushed_refs t).mpr howned⟩
  · rw [deletions_hushAll]
    refine or_congr_right (and_iff_right_of_imp ?_)
    rintro ⟨t, hlive, -⟩
    exact hlisted hlive

/-- **The destructor of a loop silences its watchers, and deletes none.**  After any run, for
every order of the lists. -/
theorem destroyed_loop {evs : List (TickersEvent Task)} (h : run step new evs = some s)
    {ids : List CallerId} (hids : ∀ id, s.tickers id ≠ [] → id ∈ ids) :
    Destroyed s (s.destroyLoop ids) :=
  (run_inv (I := Good) (fun _ _ _ hs h => hs.step h) good_new h : s.Good).destroyed hids

end

/-- A ticker with an owner and a hook that is due later: the loop goes, and the watcher of the
hook stays. -/
theorem destroyed_loop_pending : ∃ s : Tickers String,
    run step new [.callEvery 1 0 1000 "a" true false, .callLater 0 500 "b"] = some s ∧
      Destroyed s (s.destroyLoop [0, 1]) := by
  obtain ⟨s, hs⟩ : ∃ s : Tickers String,
      run step new [.callEvery 1 0 1000 "a" true false, .callLater 0 500 "b"] = some s :=
    ⟨_, rfl⟩
  refine ⟨s, hs, destroyed_loop hs fun id hid => ?_⟩
  by_contra hmem
  rw [List.mem_cons, List.mem_singleton, not_or] at hmem
  obtain rfl := Option.some.inj hs
  refine hid ?_
  simp [modify, add, clearOldTickers, new, loopId, hmem.1, hmem.2, sweepList]

end Tickers

end Wshttp.EventLoop
