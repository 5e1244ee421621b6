/-
# `Wshttp.EventLoop.Tickers` — the registry of watchers, by the id they are made for

`make_handler(id)` gives out the only `shared_ptr` to a new watcher and keeps a
`weak_ptr` in `tickers[id]`.  The watchers stand in a heap here, by identity, with the
count of their owners.  A watcher without owners is expired: no `weak_ptr` to it locks
any more.  Its deleter is `loop_deleter`, which destroys it at once on the loop thread
and otherwise enqueues a job that does.

| source                                        | event                |
| :-------------------------------------------- | :------------------- |
| `_call_every`                                 | `callEvery`          |
| `add_oneshot_event`                           | `callLater`          |
| an owner copies, or drops, its `shared_ptr`   | `share`, `release`   |
| the job of `loop_deleter` is run              | `delete`             |
| `clear_old_tickers`                           | `sweep`              |
| `stop_tickers`, on the loop thread            | `stopTickers`        |
| `start`, `stop` of a watcher                  | `start`, `stop`      |
| the event of a watcher is called back         | `expire`             |

The owner of a one-shot watcher is its own callback.

**Proved here.**  Every watcher with an owner is listed once, under its id; and
`stop_tickers(id)` disarms these for `id`, silences them for good and leaves all
others as they were (`stop_tickers_stops`).  A watcher whose last owner has let go of
it off the loop thread is past its reach until it is deleted (`released_still_fires`).
-/
import Wshttp.EventLoop.Watcher
import Wshttp.Lib.Run
import Mathlib.Logic.Function.Basic
import Mathlib.Logic.Function.Iterate

namespace Wshttp.EventLoop

open Machine

abbrev CallerId := UInt16

def loopId : CallerId := 0

structure Ticker (Task : Type) where
  id : CallerId
  watcher : EvWatcher Task := {}
  /-- `use_count` -/
  refs : Nat := 1
  /-- one of the owners is the watcher's own callback -/
  selfOwned : Bool := false

namespace Ticker

variable {Task : Type}

/-- Somebody other than its callback owns the watcher. -/
def owned (t : Ticker Task) : Bool := t.selfOwned.toNat < t.refs

/-- An owner lets go; `none` if that destroys the watcher. -/
def dropRef (onLoop : Bool) (t : Ticker Task) : Option (Ticker Task) :=
  if t.refs = 1 ∧ onLoop = true then none else some { t with refs := t.refs - 1 }

/-- libevent calls back.  The callback of a one-shot watcher lets go of the watcher
when the hook has come back. -/
def expire (done : Option Int) (t : Ticker Task) : Option (Ticker Task) :=
  let called := t.watcher.expire done
  let t := { t with watcher := called.2 }
  if t.selfOwned && called.1.isSome then dropRef true { t with selfOwned := false } else some t

/-- One turn of the loop in `stop_tickers`: nothing if `lock` gives a null pointer.
An emptied callback is no owner any more, and the pointer that `lock` has given may
then be the last one. -/
def silence (t : Ticker Task) : Option (Ticker Task) :=
  if t.refs = 0 then some t
  else if t.refs = t.selfOwned.toNat then none
  else
    some { t with
      watcher := ({ t.watcher with f := .null } : EvWatcher Task).stop.2
      refs := t.refs - t.selfOwned.toNat
      selfOwned := false }

/-! ## What becomes of one watcher -/

/-- It keeps its id, gets no owner and no task if it has none, and stays marked while
it is armed. -/
structure Tame (t t' : Ticker Task) : Prop where
  id : t'.id = t.id
  refs : t.refs = 0 → t'.refs = 0
  armed : t.watcher.RunsIfArmed → t'.watcher.RunsIfArmed
  silent : t.watcher.f = .null → t'.watcher.f = .null

section
variable {t t' : Ticker Task}

theorem owned_refs (h : t.owned = true) : t.refs ≠ 0 :=
  Nat.ne_of_gt (Nat.lt_of_le_of_lt (Nat.zero_le _) (of_decide_eq_true h))

theorem tame_dropRef {onLoop : Bool} (h : t.dropRef onLoop = some t') : Tame t t' := by
  unfold dropRef at h
  split at h
  · cases h
  · obtain rfl := Option.some.inj h
    exact ⟨rfl, fun hrefs => by simp only [hrefs, Nat.zero_sub], fun h => h, fun h => h⟩

theorem tame_expire {deadline : Int} {done : Option Int} (harmed : t.watcher.armed = some deadline)
    (h : t.expire done = some t') : Tame t t' := by
  have hcalled : Tame t { t with watcher := (t.watcher.expire done).2 } :=
    ⟨rfl, fun h => h, fun hruns => hruns.expire harmed done,
      fun hnull => (EvWatcher.expire_f done).trans hnull⟩
  unfold expire at h
  dsimp only at h
  split at h
  · obtain ⟨hid, hrefs, hruns, hnull⟩ := tame_dropRef h
    exact ⟨hid, hrefs, fun h => hruns (hcalled.armed h), fun h => hnull (hcalled.silent h)⟩
  · exact Option.some.inj h ▸ hcalled

theorem silence_spec (hrefs : t.refs ≠ 0) (hruns : t.watcher.RunsIfArmed)
    (h : t.silence = some t') : t'.watcher.f = .null ∧ t'.watcher.armed = none := by
  rw [silence, if_neg hrefs] at h
  split at h
  · cases h
  · obtain rfl := Option.some.inj h
    exact ⟨EvWatcher.stop_f, EvWatcher.RunsIfArmed.stop hruns⟩

theorem tame_silence (h : t.silence = some t') : Tame t t' := by
  by_cases hrefs : t.refs = 0
  · rw [silence, if_pos hrefs] at h
    exact Option.some.inj h ▸ ⟨rfl, fun h => h, fun h => h, fun h => h⟩
  · have hspec := fun hruns => silence_spec hrefs hruns h
    have hid : t'.id = t.id := by
      rw [silence, if_neg hrefs] at h
      split at h
      · cases h
      · exact Option.some.inj h ▸ rfl
    refine ⟨hid, fun h => absurd h hrefs, fun hruns => ?_, fun _ => ?_⟩
    · exact fun harmed => by rw [(hspec hruns).2] at harmed; cases harmed
    · rw [silence, if_neg hrefs] at h
      split at h
      · cases h
      · exact Option.some.inj h ▸ EvWatcher.stop_f

end

end Ticker

/-! ## The registry -/

structure Tickers (Task : Type) where
  heap : Nat → Option (Ticker Task)
  /-- no watcher has had this identity, or a larger one -/
  next : Nat
  tickers : CallerId → List Nat
  /-- the queued jobs of `loop_deleter`, oldest first -/
  deletions : List Nat

inductive TickersEvent (Task : Type) where
  | callEvery (id : CallerId) (now : Int) (interval : Int64) (f : Task)
      (startImmediately wait : Bool)
  | callLater (now : Int) (delay : Int64) (hook : Task)
  | share (p : Nat)
  | release (p : Nat) (onLoop : Bool)
  | delete
  | sweep
  | stopTickers (id : CallerId)
  | start (p : Nat) (now : Int)
  | stop (p : Nat)
  | expire (p : Nat) (now : Int) (done : Option Int)

namespace Tickers

variable {Task : Type}

def new : Tickers Task where
  heap := fun _ => none
  next := 0
  tickers := fun _ => []
  deletions := []

/-- `weak_ptr::expired`. -/
def expired (s : Tickers Task) (p : Nat) : Bool :=
  match s.heap p with
  | some t => t.refs == 0
  | none => true

/-- The loop of `clear_old_tickers` over one list. -/
def sweepList (s : Tickers Task) : List Nat → List Nat
  | [] => []
  | p :: rest => if s.expired p then s.sweepList rest else p :: s.sweepList rest

def clearOldTickers (s : Tickers Task) : Tickers Task :=
  { s with tickers := fun id => s.sweepList (s.tickers id) }

def add (t : Ticker Task) (s : Tickers Task) : Tickers Task :=
  { s with
    heap := Function.update s.heap s.next (some t)
    next := s.next + 1
    tickers := Function.update s.tickers t.id (s.tickers t.id ++ [s.next]) }

/-- `make_handler`, with the identity of the watcher it returns. -/
def makeHandler (id : CallerId) (s : Tickers Task) : Nat × Tickers Task :=
  (s.clearOldTickers.next, s.clearOldTickers.add { id })

def modify (p : Nat) (g : Ticker Task → Option (Ticker Task)) (s : Tickers Task) : Tickers Task :=
  { s with heap := Function.update s.heap p ((s.heap p).bind g) }

def stopTickers (id : CallerId) (s : Tickers Task) : Tickers Task :=
  (s.tickers id).foldl (fun s p => s.modify p Ticker.silence) s

def step (s : Tickers Task) : TickersEvent Task → Option (Tickers Task)
  | .callEvery id now interval f startImmediately wait =>
      let (p, s) := s.makeHandler id
      some (s.modify p fun t =>
        some { t with watcher := .callEveryAs now interval f startImmediately wait })
  | .callLater now delay hook =>
      let (p, s) := s.makeHandler loopId
      some (s.modify p fun t =>
        some { t with watcher := .oneshot now delay hook, selfOwned := true })
  | .share p =>
      match s.heap p with
      | some t =>
          if t.owned then some (s.modify p fun t => some { t with refs := t.refs + 1 }) else none
      | none => none
  | .release p onLoop =>
      match s.heap p with
      | some t =>
          if t.owned then
            some { s.modify p (Ticker.dropRef onLoop) with
              deletions :=
                if t.refs = 1 ∧ onLoop = false then s.deletions ++ [p] else s.deletions }
          else none
      | none => none
  | .delete =>
      match s.deletions with
      | p :: rest => some { s.modify p (fun _ => none) with deletions := rest }
      | [] => none
  | .sweep => some s.clearOldTickers
  | .stopTickers id => some (s.stopTickers id)
  | .start p now =>
      match s.heap p with
      | some t =>
          if t.owned then
            some (s.modify p fun t => some { t with watcher := (t.watcher.start now).2 })
          else none
      | none => none
  | .stop p =>
      match s.heap p with
      | some t =>
          if t.owned then some (s.modify p fun t => some { t with watcher := t.watcher.stop.2 })
          else none
      | none => none
  | .expire p now done =>
      match (s.heap p).bind fun t => t.watcher.armed with
      | some deadline => if deadline ≤ now then some (s.modify p (Ticker.expire done)) else none
      | none => none

/-- The watcher whose task an event runs, and the task. -/
def called (s : Tickers Task) : TickersEvent Task → Option (Nat × Task)
  | .expire p _ done => (s.heap p).bind fun t => (t.watcher.expire done).1.map (p, ·)
  | _ => none

/-! ## What a step can do -/

/-- It makes a watcher, changes one tamely, sweeps, or stops the watchers of an id. -/
inductive Stepped (s : Tickers Task) : TickersEvent Task → Tickers Task → Prop
  | makes {e : TickersEvent Task} {t : Ticker Task} :
      t.watcher.RunsIfArmed → s.called e = none → Stepped s e (s.clearOldTickers.add t)
  | modifies {e : TickersEvent Task} {p : Nat} {g : Ticker Task → Option (Ticker Task)}
      {deletions : List Nat} :
      (∀ t t', s.heap p = some t → g t = some t' → Ticker.Tame t t') →
      Stepped s e { s.modify p g with deletions }
  | sweeps : Stepped s .sweep s.clearOldTickers
  | stops {id : CallerId} : Stepped s (.stopTickers id) (s.stopTickers id)

section
variable {s s' : Tickers Task} {e : TickersEvent Task} {p : Nat}

/-- `init_event`, on the watcher that `make_handler` has just returned. -/
theorem modify_add (t : Ticker Task) {g : Ticker Task → Ticker Task} (hid : (g t).id = t.id) :
    (s.add t).modify s.next (fun t => some (g t)) = s.add (g t) := by
  simp only [modify, add, Function.update_self, Function.update_idem, hid, Option.bind_some]

/-- What an owner does, an owner did. -/
theorem of_owned {next : Ticker Task → Tickers Task}
    (h : (match s.heap p with
      | some t => if t.owned then some (next t) else none
      | none => none) = some s') : ∃ t, s.heap p = some t ∧ t.owned = true ∧ s' = next t := by
  split at h
  case h_2 => cases h
  next t ht =>
  split at h
  case isFalse => cases h
  next howned => exact ⟨t, ht, howned, (Option.some.inj h).symm⟩

theorem stepped (h : s.step e = some s') : Stepped s e s' := by
  cases e with
  | callEvery id now interval f startImmediately wait =>
      obtain rfl := Option.some.inj h
      rw [modify_add { id } rfl]
      exact .makes (EvWatcher.callEvery_runsIfArmed startImmediately wait) rfl
  | callLater now delay hook =>
      obtain rfl := Option.some.inj h
      rw [modify_add { id := loopId } rfl]
      exact .makes (fun _ => rfl) rfl
  | share p =>
      obtain ⟨t, ht, howned, rfl⟩ := of_owned h
      refine .modifies fun u u' hu hu' => ?_
      obtain rfl := Option.some.inj (ht.symm.trans hu)
      obtain rfl := Option.some.inj hu'
      exact ⟨rfl, fun hrefs => absurd hrefs (Ticker.owned_refs howned), id, id⟩
  | release p onLoop =>
      obtain ⟨t, -, -, rfl⟩ := of_owned h
      exact .modifies fun _ _ _ hu' => Ticker.tame_dropRef hu'
  | delete =>
      simp only [step] at h
      split at h
      case h_2 => cases h
      obtain rfl := Option.some.inj h
      exact .modifies fun _ _ _ hu' => (nomatch hu')
  | sweep =>
      obtain rfl := Option.some.inj h
      exact .sweeps
  | stopTickers id =>
      obtain rfl := Option.some.inj h
      exact .stops
  | start p now =>
      obtain ⟨t, -, -, rfl⟩ := of_owned h
      refine .modifies fun u u' _ hu' => ?_
      obtain rfl := Option.some.inj hu'
      exact ⟨rfl, id, fun _ _ => EvWatcher.start_isRunning, EvWatcher.start_f.trans⟩
  | stop p =>
      obtain ⟨t, -, -, rfl⟩ := of_owned h
      refine .modifies fun u u' _ hu' => ?_
      obtain rfl := Option.some.inj hu'
      refine ⟨rfl, id, fun hruns harmed => ?_, EvWatcher.stop_f.trans⟩
      rw [hruns.stop] at harmed
      cases harmed
  | expire p now done =>
      simp only [step] at h
      split at h
      case h_2 => cases h
      next deadline harmed =>
      split at h
      case isFalse => cases h
      obtain rfl := Option.some.inj h
      obtain ⟨t, ht, hdeadline⟩ := Option.bind_eq_some_iff.mp harmed
      refine .modifies fun u u' hu hu' => ?_
      obtain rfl := Option.some.inj (ht.symm.trans hu)
      exact Ticker.tame_expire hdeadline hu'

/-! ## The registry is right -/

/-- A watcher that somebody owns. -/
def Live (s : Tickers Task) (p : Nat) (t : Ticker Task) : Prop := s.heap p = some t ∧ t.refs ≠ 0

/-- Each of these is listed once under its id, and under no other. -/
def Registered (s : Tickers Task) : Prop :=
  ∀ p t, s.Live p t → (s.tickers t.id).count p = 1 ∧ ∀ id, id ≠ t.id → p ∉ s.tickers id

structure Good (s : Tickers Task) : Prop where
  registered : s.Registered
  runs : ∀ p t, s.heap p = some t → t.watcher.RunsIfArmed
  made : ∀ p t, s.heap p = some t → p < s.next
  listed : ∀ id p, p ∈ s.tickers id → p < s.next

theorem sweepList_eq (l : List Nat) : s.sweepList l = l.filter (!s.expired ·) := by
  induction l with
  | nil => rfl
  | cons p rest ih =>
      rw [sweepList, List.filter_cons, ih]
      cases s.expired p <;> rfl

theorem expired_of_live {t : Ticker Task} (h : s.Live p t) : s.expired p = false := by
  rw [expired, h.1]
  exact beq_eq_false_iff_ne.mpr h.2

theorem heap_modify_self (g : Ticker Task → Option (Ticker Task)) :
    (s.modify p g).heap p = (s.heap p).bind g := Function.update_self ..

theorem heap_modify_ne {q : Nat} (h : q ≠ p) (g : Ticker Task → Option (Ticker Task)) :
    (s.modify p g).heap q = s.heap q := Function.update_of_ne h ..

theorem Good.modify (hs : s.Good) {g : Ticker Task → Option (Ticker Task)}
    (hg : ∀ t t', s.heap p = some t → g t = some t' → Ticker.Tame t t') : (s.modify p g).Good := by
  -- every watcher after it is one from before, tamely changed
  have hback (q : Nat) (t' : Ticker Task) (ht' : (s.modify p g).heap q = some t') :
      ∃ t, s.heap q = some t ∧ Ticker.Tame t t' := by
    rcases eq_or_ne q p with rfl | hne
    · rw [heap_modify_self] at ht'
      obtain ⟨t, ht, hgt⟩ := Option.bind_eq_some_iff.mp ht'
      exact ⟨t, ht, hg t t' ht hgt⟩
    · rw [heap_modify_ne hne] at ht'
      exact ⟨t', ht', rfl, id, id, id⟩
  refine ⟨?_, ?_, ?_, hs.listed⟩
  · rintro q t' ⟨ht', hrefs'⟩
    obtain ⟨t, ht, htame⟩ := hback q t' ht'
    rw [htame.id]
    exact hs.registered q t ⟨ht, mt htame.refs hrefs'⟩
  · intro q t' ht'
    obtain ⟨t, ht, htame⟩ := hback q t' ht'
    exact htame.armed (hs.runs q t ht)
  · intro q t' ht'
    obtain ⟨t, ht, -⟩ := hback q t' ht'
    exact hs.made q t ht

theorem Good.clearOldTickers (hs : s.Good) : s.clearOldTickers.Good := by
  refine ⟨?_, hs.runs, hs.made, ?_⟩
  · intro q t hlive
    change s.Live q t at hlive
    obtain ⟨hone, hnone⟩ := hs.registered q t hlive
    have hkept : (!s.expired q) = true := by rw [expired_of_live hlive]; rfl
    refine ⟨?_, fun id hid hmem => hnone id hid ?_⟩
    · show (s.sweepList (s.tickers t.id)).count q = 1
      rw [sweepList_eq, List.count_filter (p := fun x => !s.expired x) hkept]
      exact hone
    · change q ∈ s.sweepList (s.tickers id) at hmem
      rw [sweepList_eq] at hmem
      exact (List.mem_filter.mp hmem).1
  · intro id q hmem
    change q ∈ s.sweepList (s.tickers id) at hmem
    rw [sweepList_eq] at hmem
    exact hs.listed id q (List.mem_filter.mp hmem).1

theorem tickers_add (t : Ticker Task) (id : CallerId) :
    (s.add t).tickers id = if id = t.id then s.tickers id ++ [s.next] else s.tickers id := by
  rcases eq_or_ne id t.id with rfl | hne
  · rw [if_pos rfl]
    exact Function.update_self ..
  · rw [if_neg hne]
    exact Function.update_of_ne hne ..

theorem Good.add (hs : s.Good) {t : Ticker Task} (ht : t.watcher.RunsIfArmed) : (s.add t).Good := by
  have hnew (id : CallerId) : s.next ∉ s.tickers id := fun hmem =>
    Nat.lt_irrefl _ (hs.listed id _ hmem)
  have hself : (s.add t).heap s.next = some t := Function.update_self ..
  have hold {q : Nat} (hq : q ≠ s.next) : (s.add t).heap q = s.heap q :=
    Function.update_of_ne hq ..
  refine ⟨?_, ?_, ?_, ?_⟩
  · rintro q u ⟨hu, hrefs⟩
    simp only [tickers_add]
    rcases eq_or_ne q s.next with rfl | hne
    · obtain rfl := Option.some.inj (hself.symm.trans hu)
      refine ⟨?_, fun id hid => ?_⟩
      · rw [if_pos rfl, List.count_append, List.count_eq_zero.mpr (hnew _),
          List.count_singleton_self]
      · rw [if_neg hid]
        exact hnew id
    · obtain ⟨hone, hnone⟩ := hs.registered q u ⟨(hold hne).symm.trans hu, hrefs⟩
      have hlast : q ∉ [s.next] := fun h => hne (List.mem_singleton.mp h)
      refine ⟨?_, fun id hid => ?_⟩
      · split
        · rw [List.count_append, hone, List.count_eq_zero.mpr hlast]
        · exact hone
      · split
        · exact fun hmem => (List.mem_append.mp hmem).elim (hnone id hid) hlast
        · exact hnone id hid
  · intro q u hu
    rcases eq_or_ne q s.next with rfl | hne
    · exact Option.some.inj (hself.symm.trans hu) ▸ ht
    · exact hs.runs q u ((hold hne).symm.trans hu)
  · intro q u hu
    rcases eq_or_ne q s.next with rfl | hne
    · exact Nat.lt_succ_self _
    · exact Nat.lt_succ_of_lt (hs.made q u ((hold hne).symm.trans hu))
  · intro id q hmem
    rw [tickers_add] at hmem
    split at hmem
    · rcases List.mem_append.mp hmem with hmem | hmem
      · exact Nat.lt_succ_of_lt (hs.listed id q hmem)
      · exact List.mem_singleton.mp hmem ▸ Nat.lt_succ_self _
    · exact Nat.lt_succ_of_lt (hs.listed id q hmem)

/-- The loop of `stop_tickers`, over any part of the list. -/
theorem Good.silenceAll (hs : s.Good) (l : List Nat) :
    (l.foldl (fun s p => s.modify p Ticker.silence) s).Good := by
  induction l generalizing s with
  | nil => exact hs
  | cons q rest ih => exact ih (hs.modify fun _ _ _ h => Ticker.tame_silence h)

theorem Good.step (hs : s.Good) (h : s.step e = some s') : s'.Good := by
  cases stepped h with
  | makes ht _ => exact hs.clearOldTickers.add ht
  | modifies hg =>
      obtain ⟨hreg, hruns, hmade, hlisted⟩ := hs.modify hg
      exact ⟨hreg, hruns, hmade, hlisted⟩
  | sweeps => exact hs.clearOldTickers
  | stops => exact hs.silenceAll _

/-! ## A watcher without a task -/

structure Silent (p : Nat) (s : Tickers Task) : Prop where
  made : p < s.next
  null : ∀ t, s.heap p = some t → t.watcher.f = .null

theorem Silent.modify (hs : s.Silent p) {q : Nat} {g : Ticker Task → Option (Ticker Task)}
    (hg : ∀ t t', s.heap q = some t → g t = some t' → Ticker.Tame t t') :
    (s.modify q g).Silent p := by
  refine ⟨hs.made, fun t' ht' => ?_⟩
  rcases eq_or_ne p q with rfl | hne
  · rw [heap_modify_self] at ht'
    obtain ⟨t, ht, hgt⟩ := Option.bind_eq_some_iff.mp ht'
    exact (hg t t' ht hgt).silent (hs.null t ht)
  · rw [heap_modify_ne hne] at ht'
    exact hs.null t' ht'

theorem Silent.silenceAll (hs : s.Silent p) (l : List Nat) :
    (l.foldl (fun s p => s.modify p Ticker.silence) s).Silent p := by
  induction l generalizing s with
  | nil => exact hs
  | cons q rest ih => exact ih (hs.modify fun _ _ _ h => Ticker.tame_silence h)

theorem Silent.step (hs : s.Silent p) (h : s.step e = some s') : s'.Silent p := by
  cases stepped h with
  | makes _ _ =>
      refine ⟨Nat.lt_succ_of_lt hs.made, fun t ht => hs.null t ?_⟩
      exact (Function.update_of_ne (Nat.ne_of_lt hs.made) ..).symm.trans ht
  | modifies hg =>
      obtain ⟨hmade, hnull⟩ := hs.modify hg
      exact ⟨hmade, hnull⟩
  | sweeps => exact ⟨hs.made, hs.null⟩
  | stops => exact hs.silenceAll _

theorem Silent.called (hs : s.Silent p) (e : TickersEvent Task) (f : Task) :
    s.called e ≠ some (p, f) := by
  intro hcalled
  cases e with
  | expire q now done =>
      obtain ⟨t, ht, hran⟩ := Option.bind_eq_some_iff.mp hcalled
      obtain ⟨g, hg, hpair⟩ := Option.map_eq_some_iff.mp hran
      obtain ⟨rfl, rfl⟩ := Prod.mk.inj hpair
      simp only [EvWatcher.expire, EvWatcher.eventDel, hs.null t ht] at hg
      cases hg
  | callEvery | callLater | share | release | delete | sweep | stopTickers | start | stop =>
      cases hcalled

/-! ## `stop_tickers` -/

/-- What the loop does to each watcher, by the number of times it is listed. -/
theorem heap_silenceAll (l : List Nat) (p : Nat) :
    (l.foldl (fun s p => s.modify p Ticker.silence) s).heap p
      = (fun o : Option (Ticker Task) => o.bind Ticker.silence)^[l.count p] (s.heap p) := by
  induction l generalizing s with
  | nil => rfl
  | cons q rest ih =>
      rw [List.foldl_cons, ih, List.count_cons]
      rcases eq_or_ne p q with rfl | hne
      · rw [heap_modify_self, beq_self_eq_true, if_pos rfl, Function.iterate_succ_apply]
      · rw [heap_modify_ne hne, if_neg fun h => hne (beq_iff_eq.mp h).symm, Nat.add_zero]

theorem next_silenceAll (l : List Nat) :
    (l.foldl (fun s p => s.modify p Ticker.silence) s).next = s.next := by
  induction l generalizing s with
  | nil => rfl
  | cons q rest ih => exact ih

/-- What holds after `stop_tickers(id)`. -/
structure Stops (id : CallerId) (s s' : Tickers Task) : Prop where
  disarmed : ∀ p t, s.Live p t → t.id = id → ∀ t', s'.heap p = some t' → t'.watcher.armed = none
  /-- not even if it is started again -/
  silent : ∀ p t, s.Live p t → t.id = id → ∀ evs,
    Along step (fun s e _ => ∀ f, s.called e ≠ some (p, f)) s' evs
  others : ∀ p t, s.heap p = some t → t.id ≠ id → s'.heap p = some t

theorem Good.stops (hs : s.Good) (id : CallerId) : Stops id s (s.stopTickers id) := by
  -- a watcher of the id is listed once, so the loop comes by it once
  have hheap {p : Nat} {t : Ticker Task} (hlive : s.Live p t) (hid : t.id = id) :
      (s.stopTickers id).heap p = t.silence := by
    rw [stopTickers, heap_silenceAll, ← hid, (hs.registered p t hlive).1, hlive.1]
    rfl
  refine ⟨fun p t hlive hid t' ht' => ?_, fun p t hlive hid evs => ?_, fun p t ht hid => ?_⟩
  · rw [hheap hlive hid] at ht'
    exact (Ticker.silence_spec hlive.2 (hs.runs p t hlive.1) ht').2
  · have hsilent : (s.stopTickers id).Silent p := by
      refine ⟨?_, fun t' ht' => ?_⟩
      · rw [stopTickers, next_silenceAll]
        exact hs.made p t hlive.1
      · rw [hheap hlive hid] at ht'
        exact (Ticker.silence_spec hlive.2 (hs.runs p t hlive.1) ht').1
    exact along_of_inv (I := Silent p) (Q := fun s e _ => ∀ f, s.called e ≠ some (p, f))
      (fun _ _ _ hsilent h => hsilent.step h) (fun _ e _ hsilent _ => hsilent.called e) hsilent evs
  · rw [stopTickers, heap_silenceAll, ht]
    by_cases hrefs : t.refs = 0
    · have hfixed : (fun o : Option (Ticker Task) => o.bind Ticker.silence) (some t) = some t :=
        if_pos hrefs
      exact Function.iterate_fixed hfixed _
    · have hnone := (hs.registered p t ⟨ht, hrefs⟩).2 id (Ne.symm hid)
      rw [List.count_eq_zero.mpr hnone]
      rfl

theorem good_new : (new : Tickers Task).Good where
  registered := fun _ _ hlive => (nomatch hlive.1)
  runs := fun _ _ ht => (nomatch ht)
  made := fun _ _ ht => (nomatch ht)
  listed := fun _ _ hmem => (nomatch hmem)

/-- **A watcher with an owner is listed once, and stopped for good.**  After any run:
every order of making, sharing, releasing, sweeping, starting and expiring. -/
theorem stop_tickers_stops {evs : List (TickersEvent Task)} (h : run step new evs = some s) :
    s.Registered ∧ ∀ id, Stops id s (s.stopTickers id) := by
  have hs : s.Good := run_inv (I := Good) (fun _ _ _ hs h => hs.step h) good_new h
  exact ⟨hs.registered, hs.stops⟩

end

theorem stop_tickers_stops_shared : ∃ s : Tickers String,
    run step new [.callEvery 1 0 1000 "a" true false, .callLater 0 500 "b", .share 0,
      .release 0 false, .expire 1 500000 none] = some s ∧
    s.Registered ∧ ∀ id, Stops id s (s.stopTickers id) := by
  obtain ⟨s, hs⟩ : ∃ s : Tickers String, run step new
      [.callEvery 1 0 1000 "a" true false, .callLater 0 500 "b", .share 0, .release 0 false,
        .expire 1 500000 none] = some s := ⟨_, rfl⟩
  exact ⟨s, hs, stop_tickers_stops hs⟩

/-- The only owner of a watcher lets go of it off the loop thread.  It is still armed
after `stop_tickers`, and runs its task if it expires before it is deleted. -/
theorem released_still_fires : ∃ s : Tickers String,
    run step new [.callEvery 1 0 1000 "a" true false, .release 0 false] = some s ∧
    ((s.stopTickers 1).heap 0).bind (fun t => t.watcher.armed) = some 1000000 ∧
    ((s.stopTickers 1).step (.expire 0 1000000 none)).isSome = true ∧
    (s.stopTickers 1).called (.expire 0 1000000 none) = some (0, "a") :=
  ⟨_, rfl, by decide, by decide, by decide⟩

end Tickers

end Wshttp.EventLoop
