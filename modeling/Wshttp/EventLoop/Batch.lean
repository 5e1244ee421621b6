/-
# `Wshttp.EventLoop.Batch` — one batch of jobs, some of which throw

`process_job_queue` as a whole, for the batch it has swapped out and the jobs in it
that throw:

    while (not swapped_queue.empty())
    {
        auto job = swapped_queue.front();
        swapped_queue.pop();
        job();
    }

Nothing catches in the loop, nor in the waker's callback that calls it; the callback of
a timer does (`init_event`).  An exception takes the rest of the batch with it.

**Proved here.**  The batch is run to its end and the call returns, exactly if no job
of it throws (`process_job_queue_runs_all_iff`).  In the machine of
`Wshttp.EventLoop.JobQueue`, whatever the other threads do meanwhile, a batch ends as
computed here (`batch_ends`).
-/
import Wshttp.EventLoop.JobQueue

namespace Wshttp.EventLoop

open Machine

/-- The jobs called, in order, and how `process_job_queue` ends. -/
structure Processed (Job : Type*) where
  ran : List (Queued Job)
  returned : Bool

section
variable {Tid Job : Type*}

/-- The `while` loop.  A job that throws is the last one called: `swapped_queue` is
destroyed with the others still in it. -/
def processJobQueue (throws : Queued Job → Bool) : List (Queued Job) → Processed Job
  | [] => ⟨[], true⟩
  | job :: rest =>
      if throws job then ⟨[job], false⟩
      else
        let later := processJobQueue throws rest
        ⟨job :: later.ran, later.returned⟩

/-- Every job of the batch is called once, in order, and the call returns. -/
def RunsAll (throws : Queued Job → Bool) (batch : List (Queued Job)) : Prop :=
  processJobQueue throws batch = ⟨batch, true⟩

variable {throws : Queued Job → Bool} {job : Queued Job} {rest batch : List (Queued Job)}

theorem process_throws (h : throws job = true) :
    processJobQueue throws (job :: rest) = ⟨[job], false⟩ := if_pos h

theorem process_returns (h : throws job = false) :
    processJobQueue throws (job :: rest) =
      ⟨job :: (processJobQueue throws rest).ran, (processJobQueue throws rest).returned⟩ :=
  if_neg (Bool.eq_false_iff.mp h)

/-- In any case it is the first jobs of the batch that are called. -/
theorem ran_prefix (throws : Queued Job → Bool) (batch : List (Queued Job)) :
    (processJobQueue throws batch).ran <+: batch := by
  induction batch with
  | nil => exact List.prefix_rfl
  | cons job rest ih =>
      cases hjob : throws job with
      | true =>
          rw [process_throws hjob]
          exact List.prefix_append [job] rest
      | false =>
          rw [process_returns hjob]
          exact List.prefix_cons_inj job |>.mpr ih

/-- **A batch is run to its end exactly if none of its jobs throws.**  For every batch,
and every subset of it that throws. -/
theorem process_job_queue_runs_all_iff (throws : Queued Job → Bool)
    (batch : List (Queued Job)) : RunsAll throws batch ↔ ∀ job ∈ batch, throws job = false := by
  induction batch with
  | nil => exact iff_of_true rfl fun _ hmem => (nomatch hmem)
  | cons job rest ih =>
      rw [List.forall_mem_cons, ← ih]
      cases hjob : throws job with
      | true =>
          refine iff_of_false (fun h => ?_) fun h => Bool.false_ne_true h.1.symm
          have hreturned := congrArg Processed.returned h
          rw [process_throws hjob] at hreturned
          cases hreturned
      | false =>
          unfold RunsAll
          rw [process_returns hjob]
          constructor
          · intro h
            obtain ⟨hran, hreturned⟩ := Processed.mk.inj h
            obtain ⟨-, hrest⟩ := List.cons.inj hran
            exact ⟨rfl, congrArg₂ Processed.mk hrest hreturned⟩
          · rintro ⟨-, h⟩
            rw [h]

/-- The job behind one that throws is not run, and the exception leaves the loop. -/
theorem throwing_job_discards :
    ¬ RunsAll (fun job => job.ticket == 0) [⟨0, "throws"⟩, ⟨1, "call_get"⟩] ∧
      (processJobQueue (fun job => job.ticket == 0) [⟨0, "throws"⟩, ⟨1, "call_get"⟩]).ran
        = [⟨0, "throws"⟩] := by
  refine ⟨fun h => ?_, rfl⟩
  cases congrArg Processed.returned h

/-! ## The batch among the other threads' steps -/

/-- A job comes back, or throws, as `throws` says. -/
def EndsAs (throws : Queued Job → Bool) (s : State Tid Job) : Act Tid Job → Prop
  | .jobReturns => ∀ q, s.loopPc = .running q → throws q = false
  | .jobThrows => ∀ q, s.loopPc = .running q → throws q = true
  | _ => True

/-- What will have been run when the loop is through with the batch it has, and whether
it will have returned. -/
def outlook (throws : Queued Job → Bool) (s : State Tid Job) : Processed Job :=
  let later := processJobQueue throws s.swappedQueue
  match s.loopPc with
  | .draining => ⟨s.ran ++ later.ran, later.returned⟩
  | .running q => if throws q then ⟨s.ran, false⟩ else ⟨s.ran ++ later.ran, later.returned⟩
  | .polling | .entered => ⟨s.ran, true⟩
  | .unwound => ⟨s.ran, false⟩

variable [DecidableEq Tid] {loop : Tid} {s t u : State Tid Job} {a : Act Tid Job}

/-- No step changes it before the next batch is swapped out. -/
theorem outlook_step (ha : a ≠ .swap) (hends : EndsAs throws s a) (h : step loop s a = some t) :
    outlook throws t = outlook throws s := by
  cases stepped h with
  | push _ _ | activate _ => rfl
  | wake hpc _ _ => simp only [outlook, hpc]
  | swap _ => exact absurd rfl ha
  | @pop q rest hpc hbatch =>
      simp only [outlook, hpc, hbatch]
      cases hq : throws q with
      | true => rw [process_throws hq, if_pos rfl]
      | false =>
          rw [process_returns hq, if_neg Bool.false_ne_true, List.append_assoc]
          rfl
  | @jobReturns q hpc _ =>
      have hq : throws q = false := hends q hpc
      simp only [outlook, hpc]
      rw [hq, if_neg Bool.false_ne_true]
  | @jobThrows q hpc _ =>
      have hq : throws q = true := hends q hpc
      simp only [outlook, hpc]
      rw [hq, if_pos rfl]
  | finish hpc hbatch =>
      simp only [outlook, hpc, hbatch]
      rw [processJobQueue, List.append_nil]

/-- Once the loop is through, the batch has been processed as `processJobQueue` says. -/
theorem batch_ends {acts : List (Act Tid Job)} (hs : s.loopPc = .draining)
    (hacts : Along (step loop) (fun s a _ => a ≠ .swap ∧ EndsAs throws s a) s acts)
    (h : run (step loop) s acts = some u) :
    (u.loopPc = .polling →
        (processJobQueue throws s.swappedQueue).returned = true ∧
          u.ran = s.ran ++ (processJobQueue throws s.swappedQueue).ran) ∧
      (u.loopPc = .unwound →
        (processJobQueue throws s.swappedQueue).returned = false ∧
          u.ran = s.ran ++ (processJobQueue throws s.swappedQueue).ran) := by
  have hkept : outlook throws u = outlook throws s :=
    run_inv_along (I := fun t => outlook throws t = outlook throws s)
      (R := fun s a _ => a ≠ .swap ∧ EndsAs throws s a)
      (fun _ _ _ hI hR hstep => (outlook_step hR.1 hR.2 hstep).trans hI) rfl hacts h
  have hstart : outlook throws s =
      ⟨s.ran ++ (processJobQueue throws s.swappedQueue).ran,
        (processJobQueue throws s.swappedQueue).returned⟩ := by
    simp only [outlook, hs]
  rw [hstart] at hkept
  constructor
  · intro hpc
    simp only [outlook, hpc] at hkept
    obtain ⟨hran, hreturned⟩ := Processed.mk.inj hkept
    exact ⟨hreturned.symm, hran⟩
  · intro hpc
    simp only [outlook, hpc] at hkept
    obtain ⟨hran, hreturned⟩ := Processed.mk.inj hkept
    exact ⟨hreturned.symm, hran⟩

end

end Wshttp.EventLoop
