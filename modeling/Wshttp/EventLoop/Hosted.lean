/-
# `Wshttp.EventLoop.Hosted` — a part of the program among the jobs of its loop

Listeners, nodes and sessions have callbacks that libevent calls on the loop's thread, and
what a callback wants done later it gives to `call_soon`.  So such a part may be seen on its
own, as a state with jobs waiting that are run one at a time; and on the loop, where its jobs
stand in `job_queue` among those of everybody else, and are taken from there in batches.

| on its own    | on the loop                                                              |
| :------------ | :----------------------------------------------------------------------- |
| `call e`      | libevent, or somebody else's job, calls it: the change, and the push     |
| `runJob`      | one of its own jobs comes back                                           |
| (nothing)     | `activate`, `wake`, `swap`, `pop`, `finish`; jobs of others, by any thread |

**Proved here.**  A run on the loop shows as a run of the part on its own, with the same calls
in the same order (`shown_run`).  From every state on the loop its thread gets all of the
part's jobs done by steps of its own, with no call in between and whatever other threads leave
undone, and what comes of them is what comes of them on its own (`runs_dry`).
-/
import Wshttp.EventLoop.Progress

namespace Wshttp.EventLoop

open Machine

/-- What a call does, with the job that it gives to `call_soon`, if any; and what a job does. -/
structure Hosted (E J W : Type*) where
  call : E → W → Option (W × Option J)
  job : J → W → Option W

/-- The state, and the jobs waiting. -/
structure Alone (J W : Type*) where
  state : W
  jobs : List J

inductive AloneAct (E : Type*) where
  | call (e : E)
  | runJob

def AloneAct.called {E : Type*} : AloneAct E → Option E
  | .call e => some e
  | .runJob => none

/-- A job of the queue is its own, or somebody else's. -/
structure OnLoop (Tid J W : Type*) where
  queue : State Tid (Option J)
  state : W

inductive LoopAct (Tid E : Type*) where
  | call (e : E)
  /-- `t` gives another job to `call_soon` -/
  | other (t : Tid)
  | activate (t : Tid)
  | wake
  | swap
  | pop
  | jobReturns
  | finish

def LoopAct.called {Tid E : Type*} : LoopAct Tid E → Option E
  | .call e => some e
  | _ => none

/-- A step of the loop's thread with which nothing new is asked for. -/
def LoopAct.ofLoop {Tid E : Type*} [DecidableEq Tid] (loop : Tid) : LoopAct Tid E → Bool
  | .call _ | .other _ => false
  | .activate t => t = loop
  | .wake | .swap | .pop | .jobReturns | .finish => true

/-- The loop's thread is in a callback, or in somebody else's job. -/
def LoopPc.elsewhere {J : Type*} : LoopPc (Option J) → Bool
  | .polling | .running ⟨_, none⟩ => true
  | _ => false

/-- On its own. -/
def Alone.step {E J W : Type*} (c : Hosted E J W) (s : Alone J W) :
    AloneAct E → Option (Alone J W)
  | .call e => (c.call e s.state).map fun r => ⟨r.1, s.jobs ++ r.2.toList⟩
  | .runJob =>
      match s.jobs with
      | [] => none
      | j :: rest => (c.job j s.state).map fun w => ⟨w, rest⟩

namespace OnLoop

variable {Tid E J W : Type*}

def start (w : W) : OnLoop Tid J W := ⟨EventLoop.init, w⟩

section
variable [DecidableEq Tid] (c : Hosted E J W) (loop : Tid)

/-- A step of the queue alone. -/
def onQueue (a : Act Tid (Option J)) (s : OnLoop Tid J W) : Option (OnLoop Tid J W) :=
  (EventLoop.step loop s.queue a).map fun q => { s with queue := q }

/-- The call has changed the state to `w`; its job, if there is one, is pushed. -/
def afterCall (w : W) (j : Option J) (s : OnLoop Tid J W) : Option (OnLoop Tid J W) :=
  match j with
  | none => some { s with state := w }
  | some j => (EventLoop.step loop s.queue (.push loop (some j))).map fun q => ⟨q, w⟩

/-- On the loop. -/
def step (s : OnLoop Tid J W) : LoopAct Tid E → Option (OnLoop Tid J W)
  | .call e =>
      if s.queue.loopPc.elsewhere = true ∧ s.queue.midCall loop = false then
        (c.call e s.state).bind fun r => s.afterCall loop r.1 r.2
      else none
  | .other t => s.onQueue loop (.push t none)
  | .activate t => s.onQueue loop (.activate t)
  | .wake => s.onQueue loop .wake
  | .swap => s.onQueue loop .swap
  | .pop => s.onQueue loop .pop
  | .jobReturns =>
      match s.queue.loopPc with
      | .running ⟨_, some j⟩ =>
          (c.job j s.state).bind fun w => { s with state := w }.onQueue loop .jobReturns
      | _ => s.onQueue loop .jobReturns
  | .finish => s.onQueue loop .finish

end

/-! ## How a state shows -/

/-- The job that is running, the rest of its batch, and the queue. -/
def inLine {Job : Type*} (q : State Tid Job) : List (Queued Job) :=
  (match q.loopPc with
    | .running j => [j]
    | _ => []) ++ (q.swappedQueue ++ q.jobQueue)

/-- Those of its own, the first first. -/
def waiting (s : OnLoop Tid J W) : List J := (inLine s.queue).filterMap Queued.job

def view (s : OnLoop Tid J W) : Alone J W := ⟨s.state, s.waiting⟩

/-- What the action is for the part on its own. -/
def shown (s : OnLoop Tid J W) : LoopAct Tid E → List (AloneAct E)
  | .call e => [.call e]
  | .jobReturns =>
      match s.queue.loopPc with
      | .running ⟨_, some _⟩ => [.runJob]
      | _ => []
  | _ => []

/-! ## The queue -/

section
variable {Job : Type*} [DecidableEq Tid] {loop : Tid} {q q' : State Tid Job} {a : Act Tid Job}

/-- The action leaves the jobs where they are, or moves them about. -/
def Quiet : Act Tid Job → Prop
  | .push _ _ | .jobReturns | .jobThrows => False
  | _ => True

theorem inLine_quiet (hq : Queueing q) (ha : Quiet a) (h : EventLoop.step loop q a = some q') :
    inLine q' = inLine q := by
  obtain ⟨l, hl⟩ := hq.fifo
  cases stepped h with
  | push _ _ => exact ha.elim
  | activate _ => rfl
  | wake hpc _ _ => simp only [inLine, hpc]
  | swap hpc => simp only [inLine, hpc, hl.noBatch (.inr hpc), List.nil_append, List.append_nil]
  | pop hpc hbatch => simp only [inLine, hpc, hbatch, List.nil_append, List.cons_append]
  | jobReturns _ _ => exact ha.elim
  | jobThrows _ _ => exact ha.elim
  | finish hpc hbatch => simp only [inLine, hpc]

theorem inLine_push {t : Tid} {job : Job} (h : EventLoop.step loop q (.push t job) = some q') :
    inLine q' = inLine q ++ [⟨q.pushed.length, job⟩] := by
  cases stepped h with
  | push _ _ => simp only [inLine, List.append_assoc]

theorem inLine_jobReturns (h : EventLoop.step loop q .jobReturns = some q') :
    ∃ j, q.loopPc = .running j ∧ inLine q = j :: inLine q' := by
  cases stepped h with
  | @jobReturns j hpc _ => exact ⟨j, hpc, by simp only [inLine, hpc, List.nil_append,
      List.cons_append]⟩

end

/-! ## One step -/

section
variable [DecidableEq Tid] {c : Hosted E J W} {loop : Tid} {s t : OnLoop Tid J W}

/-- What a step may do to the queue: no job throws, and the jobs of the part are pushed by the
loop's thread. -/
def Allowed (loop : Tid) : Act Tid (Option J) → Prop
  | .jobThrows => False
  | .push t (some _) => t = loop
  | .push _ none | .activate _ | .wake | .swap | .pop | .jobReturns | .finish => True

theorem onQueue_step {b : Act Tid (Option J)} (h : s.onQueue loop b = some t) :
    EventLoop.step loop s.queue b = some t.queue := by
  obtain ⟨q, hq, rfl⟩ := Option.map_eq_some_iff.mp h
  exact hq

/-- A step leaves the queue alone, or is one step of it. -/
theorem queue_step {a : LoopAct Tid E} (h : step c loop s a = some t) :
    t.queue = s.queue ∨ ∃ b, Allowed loop b ∧ EventLoop.step loop s.queue b = some t.queue := by
  cases a with
  | call e =>
      simp only [step] at h
      split at h
      case isFalse => cases h
      obtain ⟨⟨w, j⟩, -, hafter⟩ := Option.bind_eq_some_iff.mp h
      cases j with
      | none =>
          obtain rfl := Option.some.inj hafter
          exact .inl rfl
      | some j =>
          obtain ⟨q, hq, rfl⟩ := Option.map_eq_some_iff.mp hafter
          exact .inr ⟨.push loop (some j), rfl, hq⟩
  | jobReturns =>
      simp only [step] at h
      split at h
      · obtain ⟨w, -, hback⟩ := Option.bind_eq_some_iff.mp h
        exact .inr ⟨.jobReturns, trivial, onQueue_step (s := { s with state := w }) hback⟩
      · exact .inr ⟨.jobReturns, trivial, onQueue_step h⟩
  | other u => exact .inr ⟨.push u none, trivial, onQueue_step h⟩
  | activate u => exact .inr ⟨.activate u, trivial, onQueue_step h⟩
  | wake => exact .inr ⟨.wake, trivial, onQueue_step h⟩
  | swap => exact .inr ⟨.swap, trivial, onQueue_step h⟩
  | pop => exact .inr ⟨.pop, trivial, onQueue_step h⟩
  | finish => exact .inr ⟨.finish, trivial, onQueue_step h⟩

theorem queueing_step {a : LoopAct Tid E} (hs : Queueing s.queue) (h : step c loop s a = some t) :
    Queueing t.queue := by
  rcases queue_step h with hsame | ⟨b, hb, hq⟩
  · rwa [hsame]
  · refine hs.step ?_ hq
    rintro rfl
    exact hb

theorem view_quiet {b : Act Tid (Option J)} (hs : Queueing s.queue) (hb : Quiet b)
    (h : s.onQueue loop b = some t) : t.view = s.view := by
  obtain ⟨q, hq, rfl⟩ := Option.map_eq_some_iff.mp h
  simp only [view, waiting, inLine_quiet hs hb hq]

theorem view_other {u : Tid} (h : s.onQueue loop (.push u none) = some t) : t.view = s.view := by
  obtain ⟨q, hq, rfl⟩ := Option.map_eq_some_iff.mp h
  simp only [view, waiting, inLine_push hq, List.filterMap_append, List.filterMap_cons_none,
    List.filterMap_nil, List.append_nil]

theorem view_afterCall {w : W} {j : Option J} (h : s.afterCall loop w j = some t) :
    t.view = ⟨w, s.waiting ++ j.toList⟩ := by
  cases j with
  | none =>
      obtain rfl := Option.some.inj h
      rw [view, Option.toList_none, List.append_nil]
      rfl
  | some j =>
      obtain ⟨q, hq, rfl⟩ := Option.map_eq_some_iff.mp h
      simp only [view, waiting, inLine_push hq, List.filterMap_append, Option.toList_some]
      rfl

/-- A job that comes back was the first in line. -/
theorem view_jobReturns (h : s.onQueue loop .jobReturns = some t) :
    ∃ ticket j, s.queue.loopPc = .running ⟨ticket, j⟩ ∧
      s.view = ⟨t.state, j.toList ++ t.waiting⟩ := by
  obtain ⟨q, hq, rfl⟩ := Option.map_eq_some_iff.mp h
  obtain ⟨⟨ticket, j⟩, hpc, hline⟩ := inLine_jobReturns hq
  refine ⟨ticket, j, hpc, ?_⟩
  rw [view, waiting, hline]
  cases j <;> rfl

/-- A step on the loop shows as a step of the part on its own, or as none. -/
theorem shown_step {a : LoopAct Tid E} (hs : Queueing s.queue) (h : step c loop s a = some t) :
    run (Alone.step c) s.view (shown s a) = some t.view := by
  cases a with
  | call e =>
      simp only [step] at h
      split at h
      case isFalse => cases h
      obtain ⟨⟨w, j⟩, hcall, hafter⟩ := Option.bind_eq_some_iff.mp h
      refine run_cons (Option.map_eq_some_iff.mpr ⟨(w, j), hcall, ?_⟩) []
      exact (view_afterCall hafter).symm
  | jobReturns =>
      simp only [step] at h
      split at h
      · next ticket j hpc =>
        obtain ⟨w, hw, hback⟩ := Option.bind_eq_some_iff.mp h
        obtain ⟨ticket', j', hpc', hview⟩ := view_jobReturns (s := { s with state := w }) hback
        obtain rfl : some j = j' := (Queued.mk.inj (LoopPc.running.inj (hpc.symm.trans hpc'))).2
        have hstate : w = t.state := congrArg Alone.state hview
        have hjobs : s.waiting = j :: t.waiting := congrArg Alone.jobs hview
        have hstep : Alone.step c s.view .runJob = some t.view := by
          simp only [Alone.step, view, hjobs, hw, Option.map_some, hstate]
        simp only [shown, hpc]
        exact run_cons hstep []
      · next hother =>
        obtain ⟨ticket, j, hpc, hview⟩ := view_jobReturns h
        cases j with
        | some j => exact absurd hpc (hother ticket j)
        | none =>
            have hsame : s.view = t.view := hview
            simp only [shown, hpc]
            exact congrArg some hsame
  | other u => exact congrArg some (view_other h).symm
  | activate u => exact congrArg some (view_quiet (b := .activate u) hs trivial h).symm
  | wake => exact congrArg some (view_quiet (b := .wake) hs trivial h).symm
  | swap => exact congrArg some (view_quiet (b := .swap) hs trivial h).symm
  | pop => exact congrArg some (view_quiet (b := .pop) hs trivial h).symm
  | finish => exact congrArg some (view_quiet (b := .finish) hs trivial h).symm

/-! ## Runs -/

/-- **A run on the loop shows as a run of the part on its own**, with the same calls in the
same order.  For every interleaving with the jobs of others, given by any threads. -/
theorem shown_run {acts : List (LoopAct Tid E)} (hs : Queueing s.queue)
    (h : run (step c loop) s acts = some t) :
    run (Alone.step c) s.view (shownAlong (step c loop) shown s acts) = some t.view ∧
      (shownAlong (step c loop) shown s acts).filterMap AloneAct.called =
        acts.filterMap LoopAct.called := by
  constructor
  · exact run_shown (I := fun s : OnLoop Tid J W => Queueing s.queue)
      (fun _ _ _ hs h => queueing_step hs h) (fun _ _ _ hs h => shown_step hs h) hs h
  · refine filterMap_shownAlong (fun s a => ?_) h
    cases a with
    | jobReturns =>
        simp only [shown]
        split <;> rfl
    | call | other | activate | wake | swap | pop | finish => rfl

theorem queueing_run {acts : List (LoopAct Tid E)} (hs : Queueing s.queue)
    (h : run (step c loop) s acts = some t) : Queueing t.queue :=
  run_inv (I := fun s : OnLoop Tid J W => Queueing s.queue)
    (fun _ _ _ hs h => queueing_step hs h) hs h

end

/-! ## Somebody will look

The waker of a job of another thread is that thread's business.  The jobs of the part are
pushed by the loop's thread, which does not come to an end before it has looked. -/

/-- While a job of the part is in the queue, the loop's thread will look there without the help
of others. -/
def Attended (loop : Tid) (q : State Tid (Option J)) : Prop :=
  (∃ x ∈ q.jobQueue, x.job.isSome = true) →
    q.jobWaker = true ∨ q.loopPc = .entered ∨ q.midCall loop = true

theorem attended_init {loop : Tid} : Attended loop (EventLoop.init : State Tid (Option J)) := by
  rintro ⟨x, hx, -⟩
  cases hx

theorem exists_inLine {s : OnLoop Tid J W} (hwaiting : s.waiting ≠ []) :
    ∃ x ∈ inLine s.queue, x.job.isSome = true := by
  obtain ⟨j, hj⟩ := List.exists_mem_of_ne_nil _ hwaiting
  obtain ⟨x, hx, hown⟩ := List.mem_filterMap.mp hj
  exact ⟨x, hx, Option.isSome_iff_exists.mpr ⟨j, hown⟩⟩

/-- While the loop's thread polls, all jobs in line are in the queue. -/
theorem waker_of_polling {loop : Tid} {q : State Tid (Option J)} (hq : Queueing q)
    (hlook : Attended loop q) (hmid : q.midCall loop = false) (hpc : q.loopPc = .polling)
    (hown : ∃ x ∈ inLine q, x.job.isSome = true) : q.jobWaker = true := by
  obtain ⟨l, hl⟩ := hq.fifo
  simp only [inLine, hpc, hl.noBatch (.inl hpc), List.nil_append] at hown
  rcases hlook hown with hwaker | hentered | hcall
  · exact hwaker
  · rw [hpc] at hentered
    cases hentered
  · rw [hmid] at hcall
    cases hcall

section
variable [DecidableEq Tid] {loop : Tid}

theorem attended_allowed {q q' : State Tid (Option J)} {a : Act Tid (Option J)}
    (hq : Attended loop q) (ha : Allowed loop a) (h : EventLoop.step loop q a = some q') :
    Attended loop q' := by
  rintro ⟨x, hx, hown⟩
  -- the loop's steps after its swap leave the waker, and what the thread is about to do
  have later (hmem : x ∈ q.jobQueue) (hpc : q.loopPc ≠ .entered) :
      q.jobWaker = true ∨ q.midCall loop = true :=
    (hq ⟨x, hmem, hown⟩).imp_right fun hrest => hrest.resolve_left hpc
  cases stepped h with
  | @push t job _ _ =>
      rcases eq_or_ne t loop with rfl | hne
      · exact .inr (.inr (Function.update_self ..))
      rcases List.mem_append.mp hx with hold | hnew
      · refine (hq ⟨x, hold, hown⟩).imp_right (Or.imp_right fun hmid => ?_)
        exact (Function.update_of_ne hne.symm ..).trans hmid
      · obtain rfl := List.mem_singleton.mp hnew
        obtain ⟨j, rfl⟩ := Option.isSome_iff_exists.mp hown
        exact absurd ha hne
  | activate _ => exact .inl rfl
  | wake _ _ _ => exact .inr (.inl rfl)
  | swap _ => cases hx
  | pop hpc _ => exact (later hx (by simp [hpc])).imp_right .inr
  | jobReturns hpc _ => exact (later hx (by simp [hpc])).imp_right .inr
  | finish hpc _ => exact (later hx (by simp [hpc])).imp_right .inr
  | jobThrows _ _ => exact ha.elim

end

section
variable [DecidableEq Tid] {c : Hosted E J W} {loop : Tid} {s t : OnLoop Tid J W}

theorem attended_step {a : LoopAct Tid E} (hs : Attended loop s.queue)
    (h : step c loop s a = some t) : Attended loop t.queue := by
  rcases queue_step h with hsame | ⟨b, hb, hq⟩
  · rwa [hsame]
  · exact attended_allowed hs hb hq

theorem attended_run {acts : List (LoopAct Tid E)} (hs : Attended loop s.queue)
    (h : run (step c loop) s acts = some t) : Attended loop t.queue :=
  run_inv (I := fun s : OnLoop Tid J W => Attended loop s.queue)
    (fun _ _ _ hs h => attended_step hs h) hs h

end

/-! ## The queue runs dry -/

section
variable {Job : Type*} [DecidableEq Tid] {loop : Tid} {q : State Tid Job}

/-- What the loop's thread has to do before the queue is empty. -/
def weight (loop : Tid) (q : State Tid Job) : Nat :=
  8 * (q.swappedQueue ++ q.jobQueue).length +
    q.loopPc.weight q.swappedQueue.isEmpty q.jobWaker + (q.midCall loop).toNat

/-- The quiet steps of the loop's thread. -/
def Own (loop : Tid) : Act Tid Job → Prop
  | .activate t => t = loop
  | .wake | .swap | .pop | .finish => True
  | .push _ _ | .jobReturns | .jobThrows => False

omit [DecidableEq Tid] in
theorem Own.quiet {a : Act Tid Job} (ha : Own loop a) : Quiet a := by
  cases a with
  | push | jobReturns | jobThrows => exact ha.elim
  | activate | wake | swap | pop | finish => trivial

/-- The loop's thread can bring the next job nearer. -/
def Moves (loop : Tid) (q : State Tid Job) : Prop :=
  ∃ a q', Own loop a ∧ EventLoop.step loop q a = some q' ∧ weight loop q' < weight loop q

theorem moves_midCall (hmid : q.midCall loop = true) : Moves loop q := by
  refine ⟨.activate loop, _, rfl, if_pos hmid, ?_⟩
  have hwaker := q.loopPc.weight_waker_le q.swappedQueue.isEmpty q.jobWaker
  simp only [weight, Function.update_self, hmid, Bool.toNat_true, Bool.toNat_false]
  omega

theorem moves_polling (hmid : q.midCall loop = false) (hpc : q.loopPc = .polling)
    (hwaker : q.jobWaker = true) : Moves loop q := by
  refine ⟨.wake, { q with jobWaker := false, loopPc := .entered }, trivial, ?_, ?_⟩
  · simp only [EventLoop.step, hpc, hmid, hwaker]
  · simp [weight, hpc, hwaker, LoopPc.weight]

theorem moves_entered (hq : Queueing q) (hpc : q.loopPc = .entered) (hline : inLine q ≠ []) :
    Moves loop q := by
  obtain ⟨l, hl⟩ := hq.fifo
  have hbatch := hl.noBatch (.inr hpc)
  have hqueue : q.jobQueue ≠ [] := by
    simpa only [inLine, hpc, hbatch, List.nil_append] using hline
  refine ⟨.swap, _, trivial, by simp only [EventLoop.step, hpc]; rfl, ?_⟩
  simp [weight, hpc, hbatch, hqueue, LoopPc.weight]

theorem moves_draining (hpc : q.loopPc = .draining) : Moves loop q := by
  cases hbatch : q.swappedQueue with
  | nil =>
      refine ⟨.finish, { q with loopPc := .polling }, trivial, ?_, ?_⟩
      · simp only [EventLoop.step, hpc, hbatch]
      · simp only [weight, hpc, hbatch, LoopPc.weight, List.isEmpty_nil, if_true]
        split <;> omega
  | cons j rest =>
      refine ⟨.pop, { q with swappedQueue := rest, loopPc := .running j, ran := q.ran ++ [j] },
        trivial, ?_, ?_⟩
      · simp only [EventLoop.step, hpc, hbatch]
      · simp only [weight, hpc, hbatch, LoopPc.weight, List.isEmpty_cons, List.cons_append,
          List.length_cons, Bool.false_eq_true, if_false]
        omega

end

section
variable [DecidableEq Tid] {c : Hosted E J W} {loop : Tid} {s : OnLoop Tid J W} {w : W}

/-- As long as a job of the part is in line, the loop's thread gets on with the queue, or has a
job running. -/
theorem moves {q : State Tid (Option J)} (hq : Queueing q) (hlook : Attended loop q)
    (hown : ∃ x ∈ inLine q, x.job.isSome = true) :
    Moves loop q ∨ ∃ j, q.loopPc = .running j ∧ q.midCall loop = false := by
  cases hmid : q.midCall loop with
  | true => exact .inl (moves_midCall hmid)
  | false =>
      cases hpc : q.loopPc with
      | polling => exact .inl (moves_polling hmid hpc (waker_of_polling hq hlook hmid hpc hown))
      | entered =>
          obtain ⟨x, hx, -⟩ := hown
          exact .inl (moves_entered hq hpc (List.ne_nil_of_mem hx))
      | draining => exact .inl (moves_draining hpc)
      | running j => exact .inr ⟨j, rfl, rfl⟩
      | unwound => exact absurd hpc hq.alive

/-- The jobs waiting may be run one after the other, and come to `w`. -/
def ComesTo (c : Hosted E J W) (w : W) (s : Alone J W) : Prop :=
  ∃ n, run (Alone.step c) s (List.replicate n .runJob) = some ⟨w, []⟩

/-- The first of them, if there is one. -/
theorem ComesTo.first {s : Alone J W} {j : J} {rest : List J} (hs : ComesTo c w s)
    (hjobs : s.jobs = j :: rest) : ∃ v, c.job j s.state = some v ∧ ComesTo c w ⟨v, rest⟩ := by
  obtain ⟨n, hn⟩ := hs
  cases n with
  | zero =>
      obtain rfl := Option.some.inj hn
      cases hjobs
  | succ n =>
      obtain ⟨u, hu, hrest⟩ := run_cons_some.mp hn
      simp only [Alone.step, hjobs] at hu
      obtain ⟨v, hv, rfl⟩ := Option.map_eq_some_iff.mp hu
      exact ⟨v, hv, n, hrest⟩

theorem ComesTo.done {s : Alone J W} (hs : ComesTo c w s) (hjobs : s.jobs = []) :
    s = ⟨w, []⟩ := by
  obtain ⟨n, hn⟩ := hs
  cases n with
  | zero => exact Option.some.inj hn
  | succ n =>
      obtain ⟨u, hu, -⟩ := run_cons_some.mp hn
      simp only [Alone.step, hjobs] at hu
      cases hu

/-- A quiet step of the queue by the loop's thread is its step on the loop. -/
theorem step_own {b : Act Tid (Option J)} {q : State Tid (Option J)} (hb : Own loop b)
    (h : EventLoop.step loop s.queue b = some q) :
    ∃ a : LoopAct Tid E, a.ofLoop loop = true ∧ step c loop s a = some { s with queue := q } := by
  have honQueue : s.onQueue loop b = some { s with queue := q } :=
    Option.map_eq_some_iff.mpr ⟨q, h, rfl⟩
  cases b with
  | activate u => exact ⟨.activate u, decide_eq_true hb, honQueue⟩
  | wake => exact ⟨.wake, rfl, honQueue⟩
  | swap => exact ⟨.swap, rfl, honQueue⟩
  | pop => exact ⟨.pop, rfl, honQueue⟩
  | finish => exact ⟨.finish, rfl, honQueue⟩
  | push | jobReturns | jobThrows => exact hb.elim

/-- The running job comes back, whoever it belongs to. -/
theorem step_jobReturns {j : Queued (Option J)} (hcomes : ComesTo c w s.view)
    (hpc : s.queue.loopPc = .running j) (hmid : s.queue.midCall loop = false) :
    ∃ v, step c loop s .jobReturns = some ⟨{ s.queue with loopPc := .draining }, v⟩ ∧
      ComesTo c w (view ⟨{ s.queue with loopPc := .draining }, v⟩) := by
  have hback : EventLoop.step loop s.queue .jobReturns =
      some { s.queue with loopPc := .draining } := by
    simp only [EventLoop.step, hpc, hmid]
  have hwaiting : s.waiting =
      j.job.toList ++ waiting ⟨{ s.queue with loopPc := .draining }, s.state⟩ := by
    obtain ⟨j', hpc', hline⟩ := inLine_jobReturns hback
    obtain rfl := LoopPc.running.inj (hpc.symm.trans hpc')
    rw [waiting, hline]
    obtain ⟨ticket, job⟩ := j
    cases job <;> rfl
  obtain ⟨ticket, job⟩ := j
  cases job with
  | none =>
      refine ⟨s.state, ?_, ?_⟩
      · simp only [step, hpc, onQueue, hback, Option.map_some]
      · have hsame : s.view = view ⟨{ s.queue with loopPc := .draining }, s.state⟩ :=
          congrArg (Alone.mk s.state) hwaiting
        exact hsame ▸ hcomes
  | some j =>
      obtain ⟨v, hjob, hrest⟩ := hcomes.first hwaiting
      have hv : c.job j s.state = some v := hjob
      refine ⟨v, ?_, hrest⟩
      simp only [step, hpc, hv, Option.bind_some, onQueue, hback, Option.map_some]

/-- What is known of a state on the loop whose jobs come to `w`. -/
structure Runnable (c : Hosted E J W) (loop : Tid) (w : W) (s : OnLoop Tid J W) : Prop where
  queueing : Queueing s.queue
  attended : Attended loop s.queue
  comesTo : ComesTo c w s.view

/-- As long as a job of the part is in line, the loop's thread gets on. -/
theorem Runnable.advances (hs : Runnable c loop w s) (hwaiting : s.waiting ≠ []) :
    ∃ (a : LoopAct Tid E) (t : OnLoop Tid J W), a.ofLoop loop = true ∧
      step c loop s a = some t ∧ Runnable c loop w t ∧
        weight loop t.queue < weight loop s.queue := by
  rcases moves hs.queueing hs.attended (exists_inLine hwaiting) with
    ⟨b, q, hb, hq, hlt⟩ | ⟨j, hpc, hmid⟩
  · obtain ⟨a, hloop, hstep⟩ : ∃ a : LoopAct Tid E, a.ofLoop loop = true ∧
        step c loop s a = some { s with queue := q } := step_own hb hq
    have hview : view { s with queue := q } = s.view :=
      view_quiet hs.queueing hb.quiet (Option.map_eq_some_iff.mpr ⟨q, hq, rfl⟩)
    exact ⟨a, _, hloop, hstep, ⟨queueing_step hs.queueing hstep, attended_step hs.attended hstep,
      hview ▸ hs.comesTo⟩, hlt⟩
  · obtain ⟨v, hstep, hrest⟩ := step_jobReturns hs.comesTo hpc hmid
    refine ⟨.jobReturns, _, rfl, hstep, ⟨queueing_step hs.queueing hstep,
      attended_step hs.attended hstep, hrest⟩, ?_⟩
    have hlt := LoopPc.weight_draining_lt s.queue.swappedQueue.isEmpty s.queue.jobWaker j
    simp only [weight, hpc]
    omega

/-- **The loop's thread gets all the jobs done** that can be done: with no call in between, from
every state it reaches, and with what comes of them on their own. -/
theorem runs_dry (hs : Runnable c loop w s) :
    ∃ (acts : List (LoopAct Tid E)) (t : OnLoop Tid J W), run (step c loop) s acts = some t ∧
      (∀ a ∈ acts, a.ofLoop loop = true) ∧ t.view = ⟨w, []⟩ := by
  obtain ⟨acts, t, hrun, hacts, hend, hempty⟩ := reaches_of_weight
    (I := Runnable c loop w) (G := fun s => s.waiting = [])
    (P := fun a : LoopAct Tid E => a.ofLoop loop = true) (fun s => weight loop s.queue)
    (fun _ hs hwaiting => hs.advances hwaiting) hs
  exact ⟨acts, t, hrun, hacts, hend.comesTo.done hempty⟩

end

end OnLoop

end Wshttp.EventLoop
