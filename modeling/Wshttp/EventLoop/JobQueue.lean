/-
# `Wshttp.EventLoop.JobQueue` — `call_soon`, the waker, and `process_job_queue`

Any thread may call `event_loop::call_soon`, which takes two steps: it pushes
the job under `job_queue_mutex`, and then it makes `job_waker` active.  The loop
thread runs `process_job_queue` when libevent delivers the waker: it swaps the
whole queue into a local one under the mutex and runs the swapped jobs one by
one.  A state records where every thread stands between those steps, so that a
run of the machine is one interleaving.

| source                                   | action                 |
| :--------------------------------------- | :--------------------- |
| `job_queue.emplace` (under the mutex)    | `push t job`           |
| `event_active(job_waker.get(), 0, 0)`    | `activate t`           |
| libevent delivers the waker's callback   | `wake`                 |
| `job_queue.swap(swapped_queue)`          | `swap`                 |
| `front`, `pop`, and the call of `job()`  | `pop`                  |
| `job()` comes back, or throws            | `jobReturns`, `jobThrows` |
| `swapped_queue.empty()`, the loop exits  | `finish`               |

A running job may itself call `call_soon`: the loop thread is a producer too,
while a job runs and while it is in some other callback.

**Proved here.**  As long as no job throws, the machine refines the log with a
cursor of `Wshttp.Lib.Fifo` (`simulates_fifo`): the batch and the queue together
are what the log calls pending.  No wake-up is lost whether or not jobs throw
(`awake_step`).
-/
import Wshttp.Lib.Fifo
import Mathlib.Logic.Function.Basic

namespace Wshttp.EventLoop

open Machine

/-- A job, with its number among all the jobs ever pushed.  The number is
history: the code keeps the job only. -/
structure Queued (Job : Type*) where
  ticket : Nat
  job : Job
  deriving DecidableEq

/-- What the loop thread is doing. -/
inductive LoopPc (Job : Type*) where
  /-- in `event_base_loop`, or in a callback other than the waker's -/
  | polling
  /-- in `process_job_queue`, before the swap -/
  | entered
  /-- in its `while` loop, between two jobs -/
  | draining
  /-- inside `job()` -/
  | running (q : Queued Job)
  /-- an exception of a job has left `process_job_queue` -/
  | unwound

/-- The shared queue, the loop thread's batch, and the position of every thread. -/
structure State (Tid Job : Type*) where
  jobQueue : List (Queued Job)
  swappedQueue : List (Queued Job)
  /-- libevent's active mark on `job_waker` -/
  jobWaker : Bool
  loopPc : LoopPc Job
  /-- the threads between their push and their `event_active` -/
  midCall : Tid → Bool
  /-- history: everything pushed, and everything whose call has begun -/
  pushed : List (Queued Job)
  ran : List (Queued Job)

inductive Act (Tid Job : Type*) where
  | push (t : Tid) (job : Job)
  | activate (t : Tid)
  | wake
  | swap
  | pop
  | jobReturns
  | jobThrows
  | finish

/-- The job that the action pushes. -/
def Act.job {Tid Job : Type*} : Act Tid Job → Option Job
  | .push _ job => some job
  | _ => none

def Act.isPop {Tid Job : Type*} : Act Tid Job → Bool
  | .pop => true
  | _ => false

section
variable {Tid Job : Type*} [DecidableEq Tid]

/-- The constructor's state: `setup_job_waker` has run and nothing is queued. -/
def init : State Tid Job where
  jobQueue := []
  swappedQueue := []
  jobWaker := false
  loopPc := .polling
  midCall := fun _ => false
  pushed := []
  ran := []

/-- The loop thread calls `call_soon` only from a job or from another callback. -/
def LoopPc.mayCall : LoopPc Job → Bool
  | .polling | .running _ => true
  | .entered | .draining | .unwound => false

/-- One step of one thread; `loop` is the loop thread.  The loop thread's own
steps wait while it is inside `call_soon`. -/
def step (loop : Tid) (s : State Tid Job) : Act Tid Job → Option (State Tid Job)
  | .push t job =>
      if s.midCall t = false ∧ (t = loop → s.loopPc.mayCall = true) then
        some { s with
          jobQueue := s.jobQueue ++ [⟨s.pushed.length, job⟩]
          midCall := Function.update s.midCall t true
          pushed := s.pushed ++ [⟨s.pushed.length, job⟩] }
      else none
  | .activate t =>
      if s.midCall t = true then
        some { s with jobWaker := true, midCall := Function.update s.midCall t false }
      else none
  | .wake =>
      match s.loopPc, s.midCall loop, s.jobWaker with
      | .polling, false, true => some { s with jobWaker := false, loopPc := .entered }
      | _, _, _ => none
  | .swap =>
      match s.loopPc with
      | .entered => some { s with jobQueue := [], swappedQueue := s.jobQueue, loopPc := .draining }
      | _ => none
  | .pop =>
      match s.loopPc, s.swappedQueue with
      | .draining, q :: rest =>
          some { s with swappedQueue := rest, loopPc := .running q, ran := s.ran ++ [q] }
      | _, _ => none
  | .jobReturns =>
      match s.loopPc, s.midCall loop with
      | .running _, false => some { s with loopPc := .draining }
      | _, _ => none
  | .jobThrows =>
      -- the local `swapped_queue` is destroyed with the jobs still in it
      match s.loopPc, s.midCall loop with
      | .running _, false => some { s with swappedQueue := [], loopPc := .unwound }
      | _, _ => none
  | .finish =>
      match s.loopPc, s.swappedQueue with
      | .draining, [] => some { s with loopPc := .polling }
      | _, _ => none

/-- What `step` does, one constructor for each action: its guards, and the state
it leaves.  Every invariant below is a case analysis of this. -/
inductive Stepped (loop : Tid) (s : State Tid Job) : Act Tid Job → State Tid Job → Prop
  | push {t : Tid} {job : Job} :
      s.midCall t = false → (t = loop → s.loopPc.mayCall = true) →
      Stepped loop s (.push t job)
        { s with
          jobQueue := s.jobQueue ++ [⟨s.pushed.length, job⟩]
          midCall := Function.update s.midCall t true
          pushed := s.pushed ++ [⟨s.pushed.length, job⟩] }
  | activate {t : Tid} :
      s.midCall t = true →
      Stepped loop s (.activate t)
        { s with jobWaker := true, midCall := Function.update s.midCall t false }
  | wake :
      s.loopPc = .polling → s.midCall loop = false → s.jobWaker = true →
      Stepped loop s .wake { s with jobWaker := false, loopPc := .entered }
  | swap :
      s.loopPc = .entered →
      Stepped loop s .swap
        { s with jobQueue := [], swappedQueue := s.jobQueue, loopPc := .draining }
  | pop {q : Queued Job} {rest : List (Queued Job)} :
      s.loopPc = .draining → s.swappedQueue = q :: rest →
      Stepped loop s .pop
        { s with swappedQueue := rest, loopPc := .running q, ran := s.ran ++ [q] }
  | jobReturns {q : Queued Job} :
      s.loopPc = .running q → s.midCall loop = false →
      Stepped loop s .jobReturns { s with loopPc := .draining }
  | jobThrows {q : Queued Job} :
      s.loopPc = .running q → s.midCall loop = false →
      Stepped loop s .jobThrows { s with swappedQueue := [], loopPc := .unwound }
  | finish :
      s.loopPc = .draining → s.swappedQueue = [] →
      Stepped loop s .finish { s with loopPc := .polling }

theorem stepped {loop : Tid} {s t : State Tid Job} {a : Act Tid Job}
    (h : step loop s a = some t) : Stepped loop s a t := by
  cases a with
  | push u job =>
      simp only [step] at h
      split at h
      · next hcan => exact Option.some.inj h ▸ .push hcan.1 hcan.2
      · cases h
  | activate u =>
      simp only [step] at h
      split at h
      · next hmid => exact Option.some.inj h ▸ .activate hmid
      · cases h
  | wake =>
      simp only [step] at h
      split at h
      · next hpc hmid hw => exact Option.some.inj h ▸ .wake hpc hmid hw
      · cases h
  | swap =>
      simp only [step] at h
      split at h
      · next hpc => exact Option.some.inj h ▸ .swap hpc
      · cases h
  | pop =>
      simp only [step] at h
      split at h
      · next q rest hpc hbatch => exact Option.some.inj h ▸ .pop hpc hbatch
      · cases h
  | jobReturns =>
      simp only [step] at h
      split at h
      · next hpc hmid => exact Option.some.inj h ▸ .jobReturns hpc hmid
      · cases h
  | jobThrows =>
      simp only [step] at h
      split at h
      · next hpc hmid => exact Option.some.inj h ▸ .jobThrows hpc hmid
      · cases h
  | finish =>
      simp only [step] at h
      split at h
      · next hpc hbatch => exact Option.some.inj h ▸ .finish hpc hbatch
      · cases h

/-- A thread may push, the loop thread from a job or another callback only. -/
theorem step_push {loop : Tid} {s : State Tid Job} {t : Tid} (job : Job)
    (hmid : s.midCall t = false) (hloop : t = loop → s.loopPc.mayCall = true) :
    step loop s (.push t job) = some
      { s with
        jobQueue := s.jobQueue ++ [⟨s.pushed.length, job⟩]
        midCall := Function.update s.midCall t true
        pushed := s.pushed ++ [⟨s.pushed.length, job⟩] } :=
  if_pos ⟨hmid, hloop⟩

end

/-! ## The queue refines a log with a cursor -/

section
variable {Tid Job : Type*}

/-- The batch and the queue are the pending part of the log; outside the `while`
loop there is no batch. -/
structure RefinesFifo (s : State Tid Job) (q : Fifo (Queued Job)) : Prop where
  issued : q.issued = s.pushed
  done : q.done = s.ran
  pending : q.pending = s.swappedQueue ++ s.jobQueue
  noBatch : s.loopPc = .polling ∨ s.loopPc = .entered → s.swappedQueue = []

theorem refinesFifo_init : RefinesFifo (init : State Tid Job) Fifo.empty :=
  ⟨rfl, rfl, rfl, fun _ => rfl⟩

variable [DecidableEq Tid]

/-- One step of the loop is at most one step of the log: a push issues, a `pop`
takes, and everything else moves entries about inside the pending part. -/
theorem simulates_fifo {loop : Tid} {s t : State Tid Job} {a : Act Tid Job} {q : Fifo (Queued Job)}
    (hq : RefinesFifo s q) (ha : a ≠ .jobThrows) (h : step loop s a = some t) :
    ∃ bs q', run Fifo.step q bs = some q' ∧ RefinesFifo t q' := by
  cases stepped h with
  | @push u job _ _ =>
      obtain ⟨q', hstep, hi, hd, hp⟩ := Fifo.step_issue q ⟨s.pushed.length, job⟩
      refine ⟨[.issue _], q', by rw [run_cons hstep]; rfl, ?_⟩
      refine ⟨by rw [hi, hq.issued], by rw [hd, hq.done], ?_, hq.noBatch⟩
      rw [hp, hq.pending, List.append_assoc]
  | activate _ => exact ⟨[], q, rfl, hq.issued, hq.done, hq.pending, hq.noBatch⟩
  | wake hpc _ _ =>
      exact ⟨[], q, rfl, hq.issued, hq.done, hq.pending, fun _ => hq.noBatch (.inl hpc)⟩
  | swap hpc =>
      refine ⟨[], q, rfl, hq.issued, hq.done, ?_, by simp⟩
      -- nothing was left of an earlier batch, so the new one is all that is pending
      rw [hq.pending, hq.noBatch (.inr hpc)]
      exact (List.append_nil _).symm
  | @pop j rest _ hbatch =>
      have hp : q.pending = j :: (rest ++ s.jobQueue) := by rw [hq.pending, hbatch]; rfl
      obtain ⟨q', hstep, hi, hd, hp'⟩ := Fifo.step_take hp
      refine ⟨[.take], q', by rw [run_cons hstep]; rfl, ?_⟩
      exact ⟨by rw [hi, hq.issued], by rw [hd, hq.done], hp', by simp⟩
  | jobReturns _ _ => exact ⟨[], q, rfl, hq.issued, hq.done, hq.pending, by simp⟩
  | jobThrows _ _ => exact absurd rfl ha
  | finish _ hbatch => exact ⟨[], q, rfl, hq.issued, hq.done, hq.pending, fun _ => hbatch⟩

/-- Along a run without throwing jobs, some log is refined by the state reached. -/
theorem run_refinesFifo {loop : Tid} {acts : List (Act Tid Job)} {s : State Tid Job}
    (hok : ∀ a ∈ acts, a ≠ .jobThrows) (h : run (step loop) init acts = some s) :
    ∃ q, RefinesFifo s q := by
  have hsim : ∀ (s : State Tid Job) a t q, RefinesFifo s q → a ≠ Act.jobThrows →
      step loop s a = some t → ∃ bs q', run Fifo.step q bs = some q' ∧ RefinesFifo t q' :=
    fun _ _ _ _ => simulates_fifo
  obtain ⟨_, q, _, hq⟩ := run_simulates hsim refinesFifo_init (along_of_forall_mem hok) h
  exact ⟨q, hq⟩

/-! ## No wake-up is lost -/

/-- Somebody is about to look at the queue: the waker is active, or the loop is
about to swap, or a producer has yet to make the waker active. -/
def WakeupDue (s : State Tid Job) : Prop :=
  s.jobWaker = true ∨ s.loopPc = .entered ∨ ∃ t, s.midCall t = true

/-- A step that leaves the queue non-empty leaves a wake-up due. -/
theorem awake_step {loop : Tid} {s t : State Tid Job} {a : Act Tid Job}
    (hs : s.jobQueue ≠ [] → WakeupDue s) (h : step loop s a = some t) :
    t.jobQueue ≠ [] → WakeupDue t := by
  intro hne
  -- the loop's steps after its swap take away none of the three reasons
  have later (hpc : s.loopPc ≠ .entered) :
      s.jobQueue ≠ [] → s.jobWaker = true ∨ ∃ t, s.midCall t = true := by
    intro hq
    rcases hs hq with hw | he | hm
    · exact .inl hw
    · exact absurd he hpc
    · exact .inr hm
  cases stepped h with
  | @push u job _ _ => exact .inr (.inr ⟨u, by simp⟩)
  | activate _ => exact .inl rfl
  | wake _ _ _ => exact .inr (.inl rfl)
  | swap _ => exact absurd rfl hne
  | pop hpc _ => exact (later (by simp [hpc]) hne).imp_right .inr
  | jobReturns hpc _ => exact (later (by simp [hpc]) hne).imp_right .inr
  | jobThrows hpc _ => exact (later (by simp [hpc]) hne).imp_right .inr
  | finish hpc _ => exact (later (by simp [hpc]) hne).imp_right .inr

/-! ## Tickets number the pushes -/

/-- The tickets of the pushed jobs are `0, 1, 2, …`, in the order of the pushes. -/
def Numbered (s : State Tid Job) : Prop :=
  s.pushed.map Queued.ticket = List.range s.pushed.length

theorem numbered_step {loop : Tid} {s t : State Tid Job} {a : Act Tid Job} (hs : Numbered s)
    (h : step loop s a = some t) : Numbered t := by
  cases stepped h with
  | push _ _ =>
      simp only [Numbered, List.map_append, List.map_cons, List.map_nil, List.length_append,
        List.length_cons, List.length_nil, List.range_succ]
      rw [hs]
  | activate | wake | swap | pop | jobReturns | jobThrows | finish => exact hs

/-! ## What is pushed, and what is run -/

theorem pushed_step {loop : Tid} {s t : State Tid Job} {a : Act Tid Job}
    (h : step loop s a = some t) :
    t.pushed.map Queued.job = s.pushed.map Queued.job ++ a.job.toList := by
  cases stepped h with
  | push _ _ => exact List.map_append
  | activate | wake | swap | pop | jobReturns | jobThrows | finish =>
      exact (List.append_nil _).symm

theorem pushed_eq {loop : Tid} {s t : State Tid Job} {a : Act Tid Job} (ha : a.job = none)
    (h : step loop s a = some t) : t.pushed = s.pushed := by
  cases stepped h with
  | push _ _ => cases ha
  | activate | wake | swap | pop | jobReturns | jobThrows | finish => rfl

theorem ran_step {loop : Tid} {s t : State Tid Job} {a : Act Tid Job}
    (h : step loop s a = some t) : t.ran.length = s.ran.length + a.isPop.toNat := by
  cases stepped h with
  | pop _ _ => exact List.length_append
  | push | activate | wake | swap | jobReturns | jobThrows | finish => rfl

/-! ## What a caller of `call_soon` may rely on -/

/-- The state of a loop none of whose jobs throws, after the actions `acts`: a job is known
by its ticket, stands in exactly one of three places, and is not forgotten. -/
structure Delivers (acts : List (Act Tid Job)) (s : State Tid Job) : Prop where
  /-- the jobs are those that the threads have pushed, in the order of the pushes -/
  pushes : s.pushed.map Queued.job = acts.filterMap Act.job
  /-- and one is run whenever the loop thread calls one -/
  calls : s.ran.length = acts.countP Act.isPop
  /-- different pushes have different tickets, so a ticket names one push -/
  tickets : (s.pushed.map Queued.ticket).Nodup
  /-- no job is run twice -/
  ranOnce : (s.ran.map Queued.ticket).Nodup
  /-- jobs run in the order of their pushes -/
  inOrder : s.ran <+: s.pushed
  /-- every job pushed has been run, or is in the batch, or is still queued -/
  located : s.ran ++ s.swappedQueue ++ s.jobQueue = s.pushed
  /-- a job still queued has a wake-up coming -/
  awake : s.jobQueue ≠ [] → WakeupDue s

/-- **No job is lost, repeated, reordered or left asleep.**  For every
interleaving of any number of threads with the loop. -/
theorem callSoon_delivers {loop : Tid} {acts : List (Act Tid Job)} {s : State Tid Job}
    (hrun : run (step loop) init acts = some s) (hok : ∀ a ∈ acts, a ≠ .jobThrows) :
    Delivers acts s := by
  obtain ⟨q, hq⟩ := run_refinesFifo hok hrun
  have hnum : Numbered s :=
    run_inv (fun _ _ _ hs h => numbered_step hs h) (s := init) rfl hrun
  have htickets : (s.pushed.map Queued.ticket).Nodup := by
    rw [hnum]
    exact List.nodup_range
  have horder : s.ran <+: s.pushed := by
    rw [← hq.done, ← hq.issued]
    exact q.done_prefix
  refine ⟨run_log (fun _ _ _ h => pushed_step h) hrun, ?_, htickets, ?_, horder, ?_, ?_⟩
  · have hcalls := run_count (n := fun s => s.ran.length) (fun _ _ _ h => ran_step h) hrun
    rw [hcalls]
    exact Nat.zero_add _
  · exact htickets.sublist (horder.sublist.map _)
  · rw [List.append_assoc, ← hq.pending, ← hq.done, ← hq.issued]
    exact q.done_append_pending
  · exact run_inv (I := fun s => s.jobQueue ≠ [] → WakeupDue s)
      (fun _ _ _ hs h => awake_step hs h) (s := init) (fun hne => absurd rfl hne) hrun

/-- Two threads and a job that enqueues another: thread 1 is still inside
`call_soon` when the loop, thread 0, runs the first job. -/
theorem callSoon_delivers_interleaved :
    ∃ s : State Nat String,
      run (step 0) init
        [.push 2 "a", .activate 2, .push 1 "b", .wake, .swap, .pop, .push 0 "c"] = some s ∧
      Delivers [.push 2 "a", .activate 2, .push 1 "b", .wake, .swap, .pop, .push 0 "c"] s := by
  obtain ⟨s, hs⟩ : ∃ s : State Nat String,
      run (step 0) init
        [.push 2 "a", .activate 2, .push 1 "b", .wake, .swap, .pop, .push 0 "c"] = some s :=
    ⟨_, rfl⟩
  exact ⟨s, hs, callSoon_delivers hs (by simp)⟩

end

end Wshttp.EventLoop
