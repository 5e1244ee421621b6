/-
# `Wshttp.EventLoop.Deleter` — `make_shared`, `loop_deleter`, and jobs with pointers in them

What an event loop makes with `make_shared` is deleted on the loop's thread: the deleter of
the `shared_ptr` is given to `call`, which runs it there and then if this is the loop's
thread, and queues it otherwise.  The listeners, nodes, sessions, endpoints and tickers are
all made so, and any of them may queue a job that has nothing but its `this`.

| source                                         | action            |
| :--------------------------------------------- | :---------------- |
| `make_shared`                                  | `makeShared`      |
| a `shared_ptr` is copied                       | `copy`            |
| a `shared_ptr` is destroyed                    | `drop`            |
| `call_soon` with pointers to `xs` in the job   | `callSoon`        |
| the steps of `Wshttp.EventLoop.JobQueue`       | the others        |

A deleted object may in its destructor drop the `shared_ptr`s it has; these are actions of
their own.

**Proved here.**  Every object is deleted at most once, on the loop's thread, after its last
`shared_ptr`, and one without a `shared_ptr` has been deleted or is going to be
(`deleted_once`).  No job uses an object that is gone, as long as the loop's thread does not
drop the last `shared_ptr` to an object that a waiting job is to use, and no job is queued for
an object without one; and as soon as either happens, one will (`jobs_find_objects_iff`).
-/
import Wshttp.EventLoop.JobQueue
import Wshttp.Lib.Reclaim

namespace Wshttp.EventLoop

open Machine Reclaim

/-- The objects are numbered as `make_shared` makes them. -/
structure Memory (Tid : Type*) where
  queue : State Tid (PtrJob Nat)
  next : Nat
  /-- `use_count` -/
  refs : Nat → Nat
  /-- history: the deleted objects, each with the thread it was deleted on -/
  deleted : List (Tid × Nat)
  /-- history: a job has used an object that was deleted -/
  faulted : Bool

inductive MemoryAct (Tid : Type*) where
  | makeShared (t : Tid)
  | copy (t : Tid) (x : Nat)
  | drop (t : Tid) (x : Nat)
  | callSoon (t : Tid) (xs : List Nat)
  | activate (t : Tid)
  | wake
  | swap
  | pop
  | jobReturns
  | finish

namespace Memory

variable {Tid : Type*} [DecidableEq Tid]

def init : Memory Tid := ⟨EventLoop.init, 0, fun _ => 0, [], false⟩

/-- The thread is not inside `call_soon`, and not in `process_job_queue` between two jobs. -/
def MayAct (loop t : Tid) (s : Memory Tid) : Prop :=
  s.queue.midCall t = false ∧ (t = loop → s.queue.loopPc.mayCall = true)

instance (loop t : Tid) (s : Memory Tid) : Decidable (s.MayAct loop t) :=
  inferInstanceAs (Decidable (_ ∧ _))

/-- A step of the queue, and nothing else. -/
def onQueue (loop : Tid) (a : Act Tid (PtrJob Nat)) (s : Memory Tid) : Option (Memory Tid) :=
  (EventLoop.step loop s.queue a).map fun q => { s with queue := q }

/-- `delete ptr`, on the thread `t`. -/
def delete (t : Tid) (x : Nat) (s : Memory Tid) : Memory Tid :=
  { s with deleted := s.deleted ++ [(t, x)] }

/-- `loop_deleter`, called on the thread `t`: what `call` does with the `delete`. -/
def loopDeleter (loop t : Tid) (x : Nat) (s : Memory Tid) : Option (Memory Tid) :=
  if t = loop then some (s.delete t x) else s.onQueue loop (.push t (.delete x))

/-- A `shared_ptr` is destroyed. -/
def dropRef (loop t : Tid) (x : Nat) (s : Memory Tid) : Option (Memory Tid) :=
  if s.refs x = 0 then none
  else if s.refs x = 1 then
    { s with refs := Function.update s.refs x 0 }.loopDeleter loop t x
  else some { s with refs := Function.update s.refs x (s.refs x - 1) }

/-- The job is called, by the loop's thread. -/
def runJob (loop : Tid) (job : PtrJob Nat) (s : Memory Tid) : Memory Tid :=
  match job with
  | .delete x => s.delete loop x
  | .uses xs => { s with faulted := s.faulted || xs.any (· ∈ s.deleted.map Prod.snd) }

def step (loop : Tid) (s : Memory Tid) : MemoryAct Tid → Option (Memory Tid)
  | .makeShared t =>
      if s.MayAct loop t then
        some { s with next := s.next + 1, refs := Function.update s.refs s.next 1 }
      else none
  | .copy t x =>
      if s.MayAct loop t ∧ 0 < s.refs x then
        some { s with refs := Function.update s.refs x (s.refs x + 1) }
      else none
  | .drop t x => if s.MayAct loop t then s.dropRef loop t x else none
  | .callSoon t xs =>
      if ∀ x ∈ xs, x < s.next then s.onQueue loop (.push t (.uses xs)) else none
  | .activate t => s.onQueue loop (.activate t)
  | .wake => s.onQueue loop .wake
  | .swap => s.onQueue loop .swap
  | .pop =>
      match s.queue.swappedQueue with
      | [] => none
      | q :: _ => (s.onQueue loop .pop).map (runJob loop q.job)
  | .jobReturns => s.onQueue loop .jobReturns
  | .finish => s.onQueue loop .finish

/-! ## What is to hold -/

/-- The jobs waiting, the oldest first. -/
def waiting (s : Memory Tid) : List (PtrJob Nat) :=
  (s.queue.swappedQueue ++ s.queue.jobQueue).map Queued.job

/-- The references, the queue and the deletions, without the threads. -/
def view (s : Memory Tid) : Store :=
  ⟨s.waiting, s.next, s.refs, s.deleted.map Prod.snd, s.faulted⟩

/-- The books of `loop_deleter`. -/
structure DeletedOnce (loop : Tid) (s : Memory Tid) : Prop where
  onLoop : ∀ t x, (t, x) ∈ s.deleted → t = loop
  once : (s.deleted.map Prod.snd).Nodup
  /-- what is deleted, or has a job waiting that deletes it, has no `shared_ptr` -/
  unowned : ∀ x, x ∈ s.deleted.map Prod.snd ∨ .delete x ∈ s.waiting → s.refs x = 0
  /-- what has no `shared_ptr` is deleted, or has such a job, and not both -/
  located : ∀ x, x < s.next → s.refs x = 0 →
    Xor (x ∈ s.deleted.map Prod.snd) (.delete x ∈ s.waiting)

/-- No job has used an object that was deleted, and none will when its turn comes. -/
def JobsFindObjects (s : Memory Tid) : Prop :=
  s.faulted = false ∧ Safe (· ∉ s.deleted.map Prod.snd) s.waiting

/-- The loop's thread drops the last `shared_ptr` to an object that a waiting job is to use,
or a job is queued that is to use an object without one. -/
def Breaks (loop : Tid) (s : Memory Tid) : MemoryAct Tid → Prop
  | .drop t x => t = loop ∧ s.refs x = 1 ∧ ∃ xs, .uses xs ∈ s.waiting ∧ x ∈ xs
  | .callSoon _ xs => ∃ x ∈ xs, s.refs x = 0
  | _ => False

/-! ## The queue -/

section
variable {loop : Tid} {q q' : State Tid (PtrJob Nat)} {a : Act Tid (PtrJob Nat)}

/-- Outside the `while` loop of `process_job_queue` there is no batch. -/
def NoBatch (q : State Tid (PtrJob Nat)) : Prop :=
  q.loopPc = .polling ∨ q.loopPc = .entered → q.swappedQueue = []

theorem noBatch_step (hq : NoBatch q) (h : EventLoop.step loop q a = some q') : NoBatch q' := by
  cases EventLoop.stepped h with
  | push _ _ => exact hq
  | activate _ => exact hq
  | wake hpc _ _ => exact fun _ => hq (.inl hpc)
  | swap _ =>
      rintro (hno | hno)
      · cases hno
      · cases hno
  | pop _ _ =>
      rintro (hno | hno)
      · cases hno
      · cases hno
  | jobReturns _ _ =>
      rintro (hno | hno)
      · cases hno
      · cases hno
  | jobThrows _ _ => exact fun _ => rfl
  | finish _ hbatch => exact fun _ => hbatch

/-- The action does not change what waits. -/
def Quiet : Act Tid (PtrJob Nat) → Prop
  | .push _ _ | .pop | .jobThrows => False
  | _ => True

theorem queued_quiet (hq : NoBatch q) (ha : Quiet a) (h : EventLoop.step loop q a = some q') :
    q'.swappedQueue ++ q'.jobQueue = q.swappedQueue ++ q.jobQueue := by
  cases EventLoop.stepped h with
  | push _ _ => exact ha.elim
  | activate _ => rfl
  | wake _ _ _ => rfl
  | swap hpc =>
      rw [hq (.inr hpc)]
      exact List.append_nil _
  | pop _ _ => exact ha.elim
  | jobReturns _ _ => rfl
  | jobThrows _ _ => exact ha.elim
  | finish _ _ => rfl

end

/-! ## One step -/

section
variable {loop : Tid} {s t : Memory Tid} {a : MemoryAct Tid}

/-- What an action is in `Reclaim.Store`. -/
def storeActs (loop : Tid) : MemoryAct Tid → List Reclaim.Act
  | .makeShared _ => [.make]
  | .copy _ x => [.copy x]
  | .drop t x => [.drop x (t ≠ loop)]
  | .callSoon _ xs => [.use xs]
  | .pop => [.take]
  | _ => []

theorem onQueue_quiet {act : Act Tid (PtrJob Nat)} (hs : NoBatch s.queue) (hact : Quiet act)
    (h : s.onQueue loop act = some t) : t.view = s.view ∧ NoBatch t.queue := by
  obtain ⟨q, hq, rfl⟩ := Option.map_eq_some_iff.mp h
  refine ⟨?_, noBatch_step hs hq⟩
  simp only [view, waiting, queued_quiet hs hact hq]

theorem onQueue_push {u : Tid} {job : PtrJob Nat} (hs : NoBatch s.queue)
    (h : s.onQueue loop (.push u job) = some t) :
    t.view = { s.view with pending := s.waiting ++ [job] } ∧ NoBatch t.queue := by
  obtain ⟨q, hq, rfl⟩ := Option.map_eq_some_iff.mp h
  refine ⟨?_, noBatch_step hs hq⟩
  cases EventLoop.stepped hq with
  | push _ _ => simp only [view, waiting, ← List.append_assoc, List.map_append, List.map_cons,
      List.map_nil]

omit [DecidableEq Tid] in
theorem view_runJob (job : PtrJob Nat) : (s.runJob loop job).view = s.view.runJob job := by
  cases job with
  | delete x => simp only [runJob, delete, view, waiting, Store.runJob, List.map_append,
      List.map_cons, List.map_nil]
  | uses xs => rfl

omit [DecidableEq Tid] in
theorem queue_runJob (job : PtrJob Nat) : (s.runJob loop job).queue = s.queue := by
  cases job <;> rfl

/-- A step is a step of the store, or none. -/
theorem view_step (hs : NoBatch s.queue) (h : step loop s a = some t) :
    run Store.step s.view (storeActs loop a) = some t.view ∧ NoBatch t.queue := by
  have hquiet {act : Act Tid (PtrJob Nat)} (hact : Quiet act) (h : s.onQueue loop act = some t) :
      some s.view = some t.view ∧ NoBatch t.queue := by
    obtain ⟨hview, hbatch⟩ := onQueue_quiet hs hact h
    exact ⟨congrArg some hview.symm, hbatch⟩
  cases a with
  | makeShared u =>
      simp only [step] at h
      split at h
      · obtain rfl := Option.some.inj h
        exact ⟨rfl, hs⟩
      · cases h
  | copy u x =>
      simp only [step] at h
      split at h
      · next hpos =>
        obtain rfl := Option.some.inj h
        exact ⟨run_cons (if_pos hpos.2) [], hs⟩
      · cases h
  | drop u x =>
      simp only [step] at h
      split at h
      case isFalse => cases h
      rw [dropRef] at h
      split at h
      · cases h
      next hne =>
      split at h
      · next hone =>
        rw [loopDeleter] at h
        split at h
        · next hloop =>
          -- the deleter deletes
          obtain rfl := Option.some.inj h
          refine ⟨?_, hs⟩
          have hstep : s.view.step (.drop x (u ≠ loop)) = _ := (if_neg hne).trans (if_pos hone)
          refine (run_cons hstep []).trans ?_
          simp [hloop, view, waiting, delete]
        · next hloop =>
          -- it queues a job
          obtain ⟨hview, hbatch⟩ :=
            onQueue_push (s := { s with refs := Function.update s.refs x 0 }) hs h
          refine ⟨?_, hbatch⟩
          have hstep : s.view.step (.drop x (u ≠ loop)) = _ := (if_neg hne).trans (if_pos hone)
          refine (run_cons hstep []).trans ?_
          rw [hview]
          simp [hloop, view, waiting]
      · next hone =>
        obtain rfl := Option.some.inj h
        exact ⟨run_cons ((if_neg hne).trans (if_neg hone)) [], hs⟩
  | callSoon u xs =>
      simp only [step] at h
      split at h
      · next hmade =>
        obtain ⟨hview, hbatch⟩ := onQueue_push hs h
        refine ⟨?_, hbatch⟩
        rw [hview]
        exact run_cons (if_pos hmade) []
      · cases h
  | pop =>
      simp only [step] at h
      split at h
      · cases h
      next q rest hbatch =>
      obtain ⟨s', hpop, rfl⟩ := Option.map_eq_some_iff.mp h
      obtain ⟨q', hq, rfl⟩ := Option.map_eq_some_iff.mp hpop
      rw [view_runJob, queue_runJob]
      refine ⟨?_, noBatch_step hs hq⟩
      cases EventLoop.stepped hq with
      | @pop q₁ rest₁ _ hbatch₁ =>
        obtain ⟨rfl, rfl⟩ := List.cons.inj (hbatch.symm.trans hbatch₁)
        have hpending : s.view.pending = q.job :: (rest ++ s.queue.jobQueue).map Queued.job := by
          simp only [view, waiting, hbatch, List.cons_append, List.map_cons]
        refine (run_cons ?_ []).trans rfl
        simp only [Store.step, hpending]
        rfl
  | activate u => exact @hquiet (.activate u) trivial h
  | wake => exact @hquiet .wake trivial h
  | swap => exact @hquiet .swap trivial h
  | jobReturns => exact @hquiet .jobReturns trivial h
  | finish => exact @hquiet .finish trivial h

/-- What is known of a memory, in every state. -/
structure Inv (loop : Tid) (s : Memory Tid) : Prop where
  noBatch : NoBatch s.queue
  accounted : s.view.Accounted
  onLoop : ∀ u x, (u, x) ∈ s.deleted → u = loop

omit [DecidableEq Tid] in
theorem onLoop_delete (hs : ∀ u x, (u, x) ∈ s.deleted → u = loop) (x : Nat) :
    ∀ u y, (u, y) ∈ (s.delete loop x).deleted → u = loop := by
  intro u y hmem
  rcases List.mem_append.mp hmem with hold | hnew
  · exact hs u y hold
  · exact congrArg Prod.fst (List.mem_singleton.mp hnew)

theorem onLoop_onQueue {act : Act Tid (PtrJob Nat)}
    (hs : ∀ u x, (u, x) ∈ s.deleted → u = loop) (h : s.onQueue loop act = some t) :
    ∀ u x, (u, x) ∈ t.deleted → u = loop := by
  obtain ⟨q, -, rfl⟩ := Option.map_eq_some_iff.mp h
  exact hs

theorem onLoop_step (hs : ∀ u x, (u, x) ∈ s.deleted → u = loop) (h : step loop s a = some t) :
    ∀ u x, (u, x) ∈ t.deleted → u = loop := by
  cases a with
  | makeShared u =>
      simp only [step] at h
      split at h
      · exact Option.some.inj h ▸ hs
      · cases h
  | copy u x =>
      simp only [step] at h
      split at h
      · exact Option.some.inj h ▸ hs
      · cases h
  | drop u x =>
      simp only [step, dropRef, loopDeleter] at h
      split at h
      case isFalse => cases h
      split at h
      · cases h
      split at h
      · split at h
        · next hloop =>
          subst hloop
          exact Option.some.inj h ▸
            onLoop_delete (s := { s with refs := Function.update s.refs x 0 }) hs x
        · exact onLoop_onQueue (s := { s with refs := Function.update s.refs x 0 }) hs h
      · exact Option.some.inj h ▸ hs
  | callSoon u xs =>
      simp only [step] at h
      split at h
      · exact onLoop_onQueue hs h
      · cases h
  | pop =>
      simp only [step] at h
      split at h
      · cases h
      next q rest _ =>
      obtain ⟨s', hpop, rfl⟩ := Option.map_eq_some_iff.mp h
      have hs' := onLoop_onQueue hs hpop
      cases q.job with
      | delete x => exact onLoop_delete hs' x
      | uses xs => exact hs'
  | activate u => exact onLoop_onQueue hs h
  | wake => exact onLoop_onQueue hs h
  | swap => exact onLoop_onQueue hs h
  | jobReturns => exact onLoop_onQueue hs h
  | finish => exact onLoop_onQueue hs h

omit [DecidableEq Tid] in
theorem inv_init : (init : Memory Tid).Inv loop where
  noBatch := fun _ => rfl
  accounted := Store.accounted_empty
  onLoop := fun _ _ hmem => absurd hmem List.not_mem_nil

theorem inv_step (hs : s.Inv loop) (h : step loop s a = some t) : t.Inv loop := by
  obtain ⟨hview, hbatch⟩ := view_step hs.noBatch h
  refine ⟨hbatch, ?_, onLoop_step hs.onLoop h⟩
  exact run_inv (fun _ _ _ hv hstep => Store.accounted_step hv hstep) hs.accounted hview

/-- The action breaks what waits, here and in the store. -/
theorem along_storeActs (h : run Store.step s.view (storeActs loop a) = some t.view) :
    Along Store.step (fun v b _ => ¬ v.Breaks b) s.view (storeActs loop a) ↔
      ¬ s.Breaks loop a := by
  have hone {b : Reclaim.Act} (hrun : run Store.step s.view [b] = some t.view) :
      Along Store.step (fun v b _ => ¬ v.Breaks b) s.view [b] ↔ ¬ s.view.Breaks b := by
    obtain ⟨v, hv, -⟩ := run_cons_some.mp hrun
    exact (along_cons hv []).trans (and_iff_left trivial)
  cases a with
  | makeShared u => exact hone h
  | copy u x => exact hone h
  | drop u x =>
      refine (hone h).trans (not_congr ?_)
      have hthread : decide (u ≠ loop) = false ↔ u = loop := by
        rw [decide_eq_false_iff_not, not_not]
      rw [Store.Breaks, hthread, Breaks]
      exact and_left_comm
  | callSoon u xs => exact hone h
  | pop => exact hone h
  | activate u => exact iff_of_true trivial not_false
  | wake => exact iff_of_true trivial not_false
  | swap => exact iff_of_true trivial not_false
  | jobReturns => exact iff_of_true trivial not_false
  | finish => exact iff_of_true trivial not_false

theorem jobsFindObjects_step (hs : s.Inv loop) (h : step loop s a = some t) :
    t.JobsFindObjects ↔ s.JobsFindObjects ∧ ¬ s.Breaks loop a := by
  obtain ⟨hview, -⟩ := view_step hs.noBatch h
  have hrun := run_iff_along (P := Store.Sound) (B := fun v b => v.Breaks b)
    (fun _ _ _ hv hstep => Store.accounted_step hv hstep)
    (fun _ _ _ hv hstep => Store.sound_step hv hstep) hs.accounted hview
  exact hrun.trans (and_congr_right fun _ => along_storeActs hview)

end

/-! ## Runs -/

section
variable {loop : Tid} {acts : List (MemoryAct Tid)} {s : Memory Tid}

/-- **Each object is deleted once, on the loop's thread.**  For every interleaving of any
number of threads with the loop. -/
theorem deleted_once (hrun : run (step loop) init acts = some s) : s.DeletedOnce loop := by
  have hs : s.Inv loop := run_inv (fun _ _ _ hinv h => inv_step hinv h) inv_init hrun
  obtain ⟨hnodup, hexact, -⟩ := hs.accounted
  obtain ⟨hdeleted, -, hdisjoint⟩ := List.nodup_append.mp hnodup
  have hcondemned (x : Nat) : x ∈ s.view.condemned ↔
      x ∈ s.deleted.map Prod.snd ∨ .delete x ∈ s.waiting := by
    rw [Store.condemned, List.mem_append, ← delete_mem_iff]
    rfl
  refine ⟨hs.onLoop, hdeleted, fun x hx => ?_, fun x hnext hrefs => ?_⟩
  · exact ((hexact x).mp ((hcondemned x).mpr hx)).2
  · rcases (hcondemned x).mp ((hexact x).mpr ⟨hnext, hrefs⟩) with hgone | hwaits
    · exact .inl ⟨hgone, fun hwaits => hdisjoint x hgone x (delete_mem_iff.mp hwaits) rfl⟩
    · exact .inr ⟨hwaits, fun hgone => hdisjoint x hgone x (delete_mem_iff.mp hwaits) rfl⟩

/-- **The jobs find their objects, exactly if no step breaks it.** -/
theorem jobs_find_objects_iff (hrun : run (step loop) init acts = some s) :
    s.JobsFindObjects ↔ Along (step loop) (fun s a _ => ¬ s.Breaks loop a) init acts := by
  have hinit : (init : Memory Tid).JobsFindObjects := ⟨rfl, trivial⟩
  have hiff := run_iff_along (P := JobsFindObjects) (B := Breaks loop)
    (fun _ _ _ hinv h => inv_step hinv h) (fun _ _ _ hinv h => jobsFindObjects_step hinv h)
    inv_init hrun
  exact hiff.trans (and_iff_right hinit)

end

/-- A job that another thread queues before it drops the last `shared_ptr` is run before the
object is deleted. -/
def dropAfterCall : List (MemoryAct Nat) :=
  [.makeShared 1, .callSoon 1 [0], .activate 1, .drop 1 0, .wake, .swap, .pop, .jobReturns]

theorem deleted_once_dropAfterCall :
    ∃ s : Memory Nat, run (step 0) init dropAfterCall = some s ∧ s.DeletedOnce 0 := by
  obtain ⟨s, hs⟩ : ∃ s : Memory Nat, run (step 0) init dropAfterCall = some s := ⟨_, rfl⟩
  exact ⟨s, hs, deleted_once hs⟩

theorem jobs_find_objects_iff_dropAfterCall :
    ∃ s : Memory Nat, run (step 0) init dropAfterCall = some s ∧
      (s.JobsFindObjects ↔
        Along (step 0) (fun s a _ => ¬ s.Breaks 0 a) init dropAfterCall) := by
  obtain ⟨s, hs⟩ : ∃ s : Memory Nat, run (step 0) init dropAfterCall = some s := ⟨_, rfl⟩
  exact ⟨s, hs, jobs_find_objects_iff hs⟩

/-- A session that is told twice to close: the first job erases it, and the second one has
only its `this`. -/
example : ∃ s : Memory Nat, run (step 0) init
    [.makeShared 0, .callSoon 0 [0], .activate 0, .callSoon 0 [0], .activate 0,
      .wake, .swap, .pop, .drop 0 0, .jobReturns, .pop] = some s ∧ s.faulted = true :=
  ⟨_, rfl, rfl⟩

end Memory

end Wshttp.EventLoop
