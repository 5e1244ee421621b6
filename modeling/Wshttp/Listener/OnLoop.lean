/-
# `Wshttp.Listener.OnLoop` — a listener among everything else on its loop

`Wshttp.Listener.World` takes a listener with its pending close jobs as if they had a queue
to themselves, and a job could run at any time.  On the loop the callbacks of the listener
and of its sessions run between those of others; a close job is pushed, waits for the waker,
and is taken in a batch with the jobs of all endpoints on the loop, some of them pushed by
other threads meanwhile.

    world s    what is there of the listener on the loop, as a `World`
    events     the run of the `World` that a run on the loop shows as

**Proved here.**  Whatever happens on the loop, it is a run of the `World`, so that everything
known of those holds: the descriptors accepted are owned, closed or stranded.  And the loop's
thread by itself runs the close jobs that wait, with the outcome they have in the `World`
(`world_on_loop`).
-/
import Wshttp.EventLoop.Hosted
import Wshttp.Listener.CloseJobs
import Wshttp.Listener.Ledger

namespace Wshttp

open Machine EventLoop

namespace World

/-- The callbacks and the jobs of a listener, as the loop calls them.  A callback gives at
most one job to `call_soon`. -/
def hosted (bigEndian : Bool) : Hosted WorldEvent CloseJob World where
  call
    | .runJob, _ => none
    | e, w => (step bigEndian { w with jobs := [] } e).map fun t =>
        ({ t with jobs := [] }, t.jobs.head?)
  job j w := (w.runJob j).toOption

/-- The part alone, as a `World`. -/
def ofAlone (s : Alone CloseJob World) : World := { s.state with jobs := s.jobs }

def ofAct : AloneAct WorldEvent → WorldEvent
  | .call e => e
  | .runJob => .runJob

section
variable {Tid : Type*}

/-- A listener that has just been registered, on an idle loop. -/
def onLoop (port : UInt16) (localAddr : IpAddress) (fd : Fd) : OnLoop Tid CloseJob World :=
  .start (registered port localAddr fd)

def world (s : OnLoop Tid CloseJob World) : World := ofAlone s.view

variable [DecidableEq Tid]

/-- What the run is for the listener. -/
def events (bigEndian : Bool) (loop : Tid) (s : OnLoop Tid CloseJob World)
    (acts : List (LoopAct Tid WorldEvent)) : List WorldEvent :=
  (shownAlong (OnLoop.step (hosted bigEndian) loop) OnLoop.shown s acts).map ofAct

end

/-! ## One step -/

section
variable {bigEndian : Bool} {w w' : World} {e : WorldEvent} {s t : Alone CloseJob World}

/-- A callback of a session asks for one close job at most. -/
theorem sessionEvent_jobs {k : IpAddress.Key} {e : IoEvent} {l : Listener}
    {r : Listener × Nat × Nat} (h : l.sessionEvent bigEndian k e = some r) :
    r.2.2 = 0 ∨ r.2.2 = 1 := by
  unfold Listener.sessionEvent at h
  split at h
  · cases h
  next p s _ =>
  obtain ⟨t, ht, rfl⟩ := Option.map_eq_some_iff.mp h
  have hid := ioStep_identity ht
  simp only [SessionBase.identity, Prod.mk.injEq] at hid
  have hjobs : t.closeJobs - s.closeJobs = (e.asksToClose s).toNat := by omega
  cases hask : e.asksToClose s with
  | false => exact .inl (by rw [hjobs, hask]; rfl)
  | true => exact .inr (by rw [hjobs, hask]; rfl)

/-- A callback leaves the waiting jobs alone, and adds at most one. -/
theorem step_callback (he : e ≠ .runJob) (jobs : List CloseJob)
    (h : step bigEndian { w with jobs := [] } e = some w') :
    step bigEndian { w with jobs } e = some { w' with jobs := jobs ++ w'.jobs.head?.toList } := by
  cases e with
  | runJob => exact absurd rfl he
  | accept addr fd o =>
      obtain ⟨l, hl, rfl⟩ := Option.map_eq_some_iff.mp h
      refine Option.map_eq_some_iff.mpr ⟨l, hl, ?_⟩
      rw [List.head?_nil, Option.toList_none, List.append_nil]
  | session k e =>
      obtain ⟨r, hr, rfl⟩ := Option.map_eq_some_iff.mp h
      refine Option.map_eq_some_iff.mpr ⟨r, hr, ?_⟩
      obtain ⟨l, -, hevent⟩ := Option.bind_eq_some_iff.mp hr
      rcases sessionEvent_jobs hevent with hnone | hone
      · simp only [hnone, List.replicate_zero, List.append_nil, List.head?_nil, Option.toList_none]
      · rw [hone]
        rfl
  | listenerError =>
      obtain ⟨l, hl, rfl⟩ := Option.map_eq_some_iff.mp h
      exact Option.map_eq_some_iff.mpr ⟨l, hl, rfl⟩
  | closeAll =>
      obtain ⟨l, hl, rfl⟩ := Option.map_eq_some_iff.mp h
      refine Option.map_eq_some_iff.mpr ⟨l, hl, ?_⟩
      rw [List.head?_nil, Option.toList_none, List.append_nil]

/-- A job does not look at the others. -/
theorem runJob_jobs (job : CloseJob) (jobs : List CloseJob) :
    ({ w with jobs } : World).runJob job = (w.runJob job).map fun v => { v with jobs } := by
  unfold runJob
  cases hl : w.listener with
  | none => rfl
  | some l =>
      cases job with
      | closeListener =>
          simp only [Except.map, closeListener]
          split
          · rfl
          · rw [hl]
      | closeSession p =>
          cases hs : l.sessions.heap.lookup p with
          | none => simp only [hs, Except.map]
          | some s => simp only [hs, Except.map]

theorem toOption_runJob_jobs (job : CloseJob) (jobs : List CloseJob) :
    (({ w with jobs } : World).runJob job).toOption =
      (w.runJob job).toOption.map fun v => { v with jobs } := by
  rw [runJob_jobs]
  cases w.runJob job <;> rfl

theorem step_ofAlone {a : AloneAct WorldEvent} (h : s.step (hosted bigEndian) a = some t) :
    (ofAlone s).step bigEndian (ofAct a) = some (ofAlone t) := by
  cases a with
  | call e =>
      obtain ⟨r, hcall, rfl⟩ := Option.map_eq_some_iff.mp h
      have hne : e ≠ .runJob := by
        rintro rfl
        cases hcall
      have hstep : (step bigEndian { s.state with jobs := [] } e).map (fun t =>
          (({ t with jobs := [] } : World), t.jobs.head?)) = some r := by
        cases e with
        | runJob => exact absurd rfl hne
        | accept | session | listenerError | closeAll => exact hcall
      obtain ⟨w', hw', rfl⟩ := Option.map_eq_some_iff.mp hstep
      exact step_callback hne s.jobs hw'
  | runJob =>
      simp only [Alone.step] at h
      split at h
      · cases h
      next j rest hjobs =>
      obtain ⟨v, hv, rfl⟩ := Option.map_eq_some_iff.mp h
      have hjob : (s.state.runJob j).toOption = some v := hv
      simp only [ofAct, step, ofAlone, hjobs]
      have hsame := toOption_runJob_jobs (w := s.state) j rest
      rw [hjob] at hsame
      exact hsame

/-- And back: the next job does on its own what it does in the `World`. -/
theorem runJob_ofAlone (h : (ofAlone s).step bigEndian .runJob = some w') :
    ∃ t, s.step (hosted bigEndian) .runJob = some t ∧ ofAlone t = w' := by
  simp only [step, ofAlone] at h
  split at h
  · cases h
  next j rest hjobs =>
  have hsame := toOption_runJob_jobs (w := s.state) j rest
  have hboth := hsame.symm.trans h
  obtain ⟨v, hv, rfl⟩ := Option.map_eq_some_iff.mp hboth
  refine ⟨⟨v, rest⟩, ?_, rfl⟩
  have hjob : (hosted bigEndian).job j s.state = some v := hv
  simp only [Alone.step, hjobs, hjob, Option.map_some]

/-- If the `World` can run all its jobs, so can the part alone. -/
theorem comesTo_ofAlone {n : Nat}
    (h : run (step bigEndian) (ofAlone s) (List.replicate n .runJob) = some w')
    (hjobs : w'.jobs = []) :
    ∃ v, OnLoop.ComesTo (hosted bigEndian) v s ∧ ofAlone ⟨v, []⟩ = w' := by
  induction n generalizing s with
  | zero =>
      obtain rfl := Option.some.inj h
      obtain ⟨state, jobs⟩ := s
      obtain rfl : jobs = [] := hjobs
      exact ⟨state, ⟨0, rfl⟩, rfl⟩
  | succ n ih =>
      obtain ⟨u, hu, hrest⟩ := run_cons_some.mp h
      obtain ⟨t, ht, rfl⟩ := runJob_ofAlone hu
      obtain ⟨v, ⟨m, hm⟩, hv⟩ := ih hrest
      exact ⟨v, ⟨m + 1, (run_cons ht _).trans hm⟩, hv⟩

end

/-! ## Runs -/

def isCallback : WorldEvent → Bool
  | .runJob => false
  | _ => true

theorem callbacks_map (evs : List (AloneAct WorldEvent)) :
    (evs.map ofAct).filter isCallback = (evs.filterMap AloneAct.called).filter isCallback := by
  induction evs with
  | nil => rfl
  | cons a evs ih =>
      cases a with
      | call e =>
          have hcall : (AloneAct.call e :: evs).filterMap AloneAct.called =
              e :: evs.filterMap AloneAct.called := rfl
          rw [hcall, List.map_cons, ofAct, List.filter_cons, List.filter_cons, ih]
      | runJob => exact ih

/-- A job accepts nothing. -/
theorem accepted_map (evs : List (AloneAct WorldEvent)) :
    accepted (evs.map ofAct) = accepted (evs.filterMap AloneAct.called) := by
  induction evs with
  | nil => rfl
  | cons a evs ih =>
      cases a with
      | call e => exact congrArg (e.accepted + ·) ih
      | runJob => exact (zero_add _).trans ih

/-- What a run on the loop is for the listener. -/
structure RunsAsWorld {Tid : Type*} [DecidableEq Tid] (bigEndian : Bool) (loop : Tid)
    (start : OnLoop Tid CloseJob World) (acts : List (LoopAct Tid WorldEvent))
    (s : OnLoop Tid CloseJob World) : Prop where
  /-- a run of the `World`, with the same callbacks in the same order -/
  shows : run (step bigEndian) (world start) (events bigEndian loop start acts) = some (world s)
  callbacks : (events bigEndian loop start acts).filter isCallback =
    (acts.filterMap LoopAct.called).filter isCallback
  places : ∀ l, s.state.listener = some l →
    accepted (acts.filterMap LoopAct.called) =
      l.owned + l.closed + stranded bigEndian (world start) (events bigEndian loop start acts)
  /-- the loop's thread runs the close jobs that wait, unless one of them faults in the `World` -/
  drains : ∀ n w, run (step bigEndian) (world s) (List.replicate n .runJob) = some w →
    w.jobs = [] → ∃ (more : List (LoopAct Tid WorldEvent)) (t : OnLoop Tid CloseJob World),
      run (OnLoop.step (hosted bigEndian) loop) s more = some t ∧
        (∀ a ∈ more, a.ofLoop loop = true) ∧ world t = w

/-- **On the loop a listener is what it is in its `World`.**  For every interleaving of its
callbacks with the jobs of others and the calls of any number of threads. -/
theorem world_on_loop {Tid : Type*} [DecidableEq Tid] {bigEndian : Bool} {loop : Tid}
    {port : UInt16} {localAddr : IpAddress} {fd : Fd} {acts : List (LoopAct Tid WorldEvent)}
    {s : OnLoop Tid CloseJob World}
    (hrun : run (OnLoop.step (hosted bigEndian) loop) (onLoop port localAddr fd) acts = some s) :
    RunsAsWorld bigEndian loop (onLoop port localAddr fd) acts s := by
  have hidle : Queueing (onLoop port localAddr fd : OnLoop Tid CloseJob World).queue :=
    queueing_init
  obtain ⟨hshown, hcalled⟩ := OnLoop.shown_run hidle hrun
  have hworld : run (step bigEndian) (world (onLoop port localAddr fd : OnLoop Tid CloseJob World))
      (events bigEndian loop (onLoop port localAddr fd) acts) = some (world s) :=
    run_map (fun _ _ _ h => step_ofAlone h) hshown
  refine ⟨hworld, ?_, fun l hl => ?_, fun n w hjobs hempty => ?_⟩
  · rw [events, callbacks_map, hcalled]
  · have hbooks := places_run (l := ⟨localAddr, fd, .empty, 0⟩) rfl hworld hl
    have hnone : (⟨localAddr, fd, .empty, 0⟩ : Listener).settled = 0 := rfl
    rw [hnone, zero_add, events, accepted_map, hcalled] at hbooks
    exact hbooks
  · obtain ⟨v, hcomes, hv⟩ := comesTo_ofAlone hjobs hempty
    have hrunnable : OnLoop.Runnable (hosted bigEndian) loop v s :=
      ⟨OnLoop.queueing_run hidle hrun, OnLoop.attended_run OnLoop.attended_init hrun, hcomes⟩
    obtain ⟨more, t, hmore, hloop, ht⟩ := OnLoop.runs_dry hrunnable
    exact ⟨more, t, hmore, hloop, (congrArg ofAlone ht).trans hv⟩

/-- A connection ends while another thread gives the loop a job, and both jobs are taken in
one batch, the session's first. -/
theorem world_on_loop_eof :
    ∃ s : OnLoop Nat CloseJob World,
      run (OnLoop.step (hosted false) 0) (onLoop 5544 (.ofPort 5544) 3)
        [.call (accepts 7), .call (reports 0x10), .other 1, .activate 1, .activate 0, .wake,
          .swap, .pop, .jobReturns, .pop, .jobReturns, .finish] = some s ∧
      RunsAsWorld false 0 (onLoop 5544 (.ofPort 5544) 3)
        [.call (accepts 7), .call (reports 0x10), .other 1, .activate 1, .activate 0, .wake,
          .swap, .pop, .jobReturns, .pop, .jobReturns, .finish] s :=
  ⟨_, rfl, world_on_loop rfl⟩

end World

end Wshttp
